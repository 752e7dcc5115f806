import ChannelPreset.Text.Utf8

/-!
# Control Sequences

A terminal takes control characters, and the sequences that an escape character begins, as commands
and shows the rest. `strip` keeps what is shown, so that a text printed into a file holds no
commands.

White space is shown, also where it stands inside a sequence: it interrupts the sequence, and what
follows is shown up to the next control character, where the sequence goes on. Only inside a string
that belongs to a sequence white space is part of the string.

* `strip_eq_self`: a text without control characters other than white space stays as it is.
-/

namespace ChannelPreset

/-- A sequence that has begun, by what may follow in it. -/
inductive ControlSequence where
  /-- Only the escape character has been read. -/
  | escape
  /-- Intermediate characters stand behind the escape character. -/
  | intermediate
  /-- The sequence has parameters and ends with a letter or a sign like one. -/
  | control
  /-- The sequence names a device and has no parameters yet. -/
  | device
  /-- The sequence names a device and has parameters. -/
  | deviceParameters
  /-- The sequence names a device and has intermediate characters. -/
  | deviceIntermediate
  /-- The rest of the sequence is a string, up to its terminator. -/
  | string
  /-- The rest of the sequence is a string, up to a bell. -/
  | command
  deriving DecidableEq, Repr

namespace ControlSequence

/-- The character that begins every sequence. -/
def opening : Char := Char.ofNat 0x1b

/-- The two characters that end any sequence at once. -/
def isAbort (c : Char) : Bool :=
  c == Char.ofNat 0x18 || c == Char.ofNat 0x1a

/-- The character that ends a command. -/
def bell : Char := Char.ofNat 0x07

/-- Whether a character ends a string: one byte of it is the code of the terminator. -/
def isTerminator (c : Char) : Bool :=
  (Utf8.encodeChar c).contains 0x9c

/-- Whether a character lies between two others, or is one of them. -/
def isWithin (first last c : Char) : Bool :=
  decide (first ≤ c) && decide (c ≤ last)

/-- What a sequence is behind one more character; none when the character ends it. The opening
character and the aborting ones, which act in every sequence alike, are not meant here. -/
def next (s : ControlSequence) (c : Char) : Option ControlSequence :=
  match s with
  | .escape =>
    if isWithin ' ' '/' c then some .intermediate
    else if c = '[' then some .control
    else if c = ']' then some .command
    else if c = 'P' then some .device
    else if c = 'X' ∨ c = '^' ∨ c = '_' then some .string
    else if isWithin '0' '~' c then none
    else some .escape
  | .intermediate => if isWithin '0' '~' c then none else some .intermediate
  | .control => if isWithin '@' '~' c then none else some .control
  | .device =>
    if isWithin '@' '~' c then some .string
    else if isWithin '0' '?' c then some .deviceParameters
    else if isWithin ' ' '/' c then some .deviceIntermediate
    else some .device
  | .deviceParameters =>
    if isWithin '<' '~' c then some .string
    else if isWithin ' ' '/' c then some .deviceIntermediate
    else some .deviceParameters
  | .deviceIntermediate => if isWithin '0' '~' c then some .string else some .deviceIntermediate
  | .string => if isTerminator c then none else some .string
  | .command => if c = bell then none else some .command

/-- Whether white space interrupts a sequence instead of belonging to it. -/
def yields : ControlSequence → Bool
  | .escape | .intermediate | .control => true
  | _ => false

/-! ## Reading a text -/

/-- Whether a character is a control character that counts as white space. -/
def isBlank (c : Char) : Bool :=
  c == '\t' || c == '\n' || c == '\r' || c == Char.ofNat 0x0c

/-- Whether a character is shown where no sequence takes it. -/
def isShown (c : Char) : Bool :=
  isBlank c || (decide (' ' ≤ c) && c != Char.ofNat 0x7f)

/-- A place in a text. -/
inductive Place where
  /-- What stands here is shown; a sequence may have been interrupted. -/
  | shown (interrupted : Option ControlSequence)
  /-- What stands here belongs to a sequence. -/
  | inside (sequence : ControlSequence)
  deriving DecidableEq, Repr

/-- The place behind a character that is not shown, where `s` is the sequence that it belongs to. -/
def follow (s : Option ControlSequence) (c : Char) : Place :=
  if c = opening then .inside .escape
  else if isAbort c then .shown none
  else
    match s.bind (·.next c) with
    | some s => .inside s
    | none => .shown none

/-- The place behind a character, and whether the character is shown. A shown character that is not
ASCII ends an interrupted sequence. -/
def Place.step (place : Place) (c : Char) : Bool × Place :=
  match place with
  | .shown interrupted =>
    if isShown c then (true, .shown (if c.toNat < 0x80 then interrupted else none))
    else (false, follow interrupted c)
  | .inside s =>
    if isBlank c && s.yields then (true, .shown (some s)) else (false, follow (some s) c)

/-- The characters that are shown from a place on. -/
def visible : Place → List Char → List Char
  | _, [] => []
  | place, c :: cs =>
    match place.step c with
    | (true, place) => c :: visible place cs
    | (false, place) => visible place cs

/-- A text without its control sequences. -/
def strip (text : String) : String :=
  String.ofList (visible (.shown none) text.toList)

theorem visible_eq_self {cs : List Char} (h : ∀ c ∈ cs, isShown c) :
    visible (.shown none) cs = cs := by
  induction cs with
  | nil => rfl
  | cons c cs ih =>
    have hc : isShown c = true := h c (by simp)
    simp [visible, Place.step, hc, ih fun d hd => h d (by simp [hd])]

/-- A text of shown characters stays as it is. -/
theorem strip_eq_self {text : String} (h : ∀ c ∈ text.toList, isShown c) : strip text = text := by
  simp [strip, visible_eq_self h]

end ControlSequence

end ChannelPreset
