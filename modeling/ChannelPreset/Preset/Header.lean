import ChannelPreset.Preset.Tally
import ChannelPreset.Token.Basic

/-!
# The Header of a Preset

The header is a count and as many pairs of a name and a value. The count may stand anywhere; reading
ends as soon as the count and the number of complete pairs agree. A pair replaces what an earlier
pair of its name gave, and what has no pair keeps its value.
-/

namespace ChannelPreset

/-- The header of a preset. -/
structure Header where
  tokenCount : Int32
  version : Int32
  fileType : String
  userComment : String
  deriving DecidableEq

namespace Header

/-- The header of a new preset. -/
def initial : Header :=
  { tokenCount := 3
    version := 1
    fileType := "D-Show Input Channel"
    userComment := "" }

instance : Inhabited Header := ⟨initial⟩

/-- The name of the version. -/
def versionName : String := "Version"

/-- The name of the file type. -/
def fileTypeName : String := "File Type"

/-- The name of the comment. -/
def userCommentName : String := "User Comment"

/-- The tokens of a header. -/
def tokens (h : Header) : List Token :=
  [.tokenCount 3,
    .string versionName, .int32 h.version,
    .string fileTypeName, .string h.fileType,
    .string userCommentName, .string h.userComment]

/-- The stored form. -/
def encode (h : Header) : Bytes :=
  Token.encodeAll h.tokens

/-- The description, four lines. -/
def describe (h : Header) : String :=
  "[File Header]\n"
    ++ s!"  Version: {h.version.toInt}\n"
    ++ s!"  File Type: {Quoted.encode h.fileType}\n"
    ++ s!"  User Comment: {Quoted.encode h.userComment}\n"

/-! ## Decoding -/

/-- What one token, with its value, does while a header is read. -/
inductive Move where
  /-- It declares the number of pairs. -/
  | count (declared : Int32)
  /-- It names the value that follows. -/
  | name (text : String)
  | version (value : Int32)
  | fileType (text : String)
  | userComment (text : String)
  deriving DecidableEq

/-- How far the reading of a header has come. -/
structure Progress where
  header : Header
  /-- The name whose value has not been read yet. -/
  pending : Option String
  /-- The count, and the complete pairs. -/
  tally : Tally
  deriving DecidableEq

namespace Progress

/-- Nothing has been read. -/
def start (h : Header) : Progress :=
  { header := h, pending := none, tally := .start }

/-- What a string does: without a pending name it is one, with one it is that name's value. -/
def string (p : Progress) (text : String) : Except DecodeError Move :=
  match p.pending with
  | none => .ok (.name text)
  | some name =>
    if name = fileTypeName then .ok (.fileType text)
    else if name = userCommentName then .ok (.userComment text)
    else .error (.unsupportedStringToken name)

/-- What a word does: it is the value of a pending name. -/
def int32 (p : Progress) (value : Int32) : Except DecodeError Move :=
  match p.pending with
  | none => .error (.unsupportedInt32Token "")
  | some name =>
    if name = versionName then .ok (.version value)
    else .error (.unsupportedInt32Token name)

/-- The next token of the stream, and the cursor behind it. -/
def next (p : Progress) (c : Cursor) : Except DecodeError (Move × Cursor) :=
  match c.tag with
  | (.tokenCount, c') =>
    if p.tally.declared.isNone then c'.int32.interpret fun count => .ok (.count count)
    else .error (.unexpectedTag .tokenCount c.position)
  | (.int32, c') => c'.int32.interpret p.int32
  | (.string, c') => c'.string.interpret p.string
  | (.invalid, _) => .error p.tally.shortfall
  | (tag, _) => .error (.unexpectedTag tag c.position)

/-- The progress with one more pair. -/
def resolve (p : Progress) (h : Header) : Progress :=
  { header := h, pending := none, tally := p.tally.add }

/-- The progress after a token. -/
def apply (p : Progress) : Move → Progress
  | .count declared => { p with tally := p.tally.declare declared }
  | .name text => { p with pending := some text }
  | .version value => p.resolve { p.header with version := value }
  | .fileType text => p.resolve { p.header with fileType := text }
  | .userComment text => p.resolve { p.header with userComment := text }

/-- Every token takes bytes. -/
theorem remaining_lt_of_next {p : Progress} {c c' : Cursor} {move : Move}
    (h : p.next c = .ok (move, c')) : c'.remaining < c.remaining := by
  unfold next at h
  split at h
  · rename_i c₁ htag
    split at h
    · obtain ⟨_, hread, _⟩ := Cursor.Read.interpret_eq_ok.1 h
      exact Cursor.remaining_lt_of_tag_of_read htag (by simp) hread c₁.remaining_int32_le
    · cases h
  · rename_i c₁ htag
    obtain ⟨_, hread, _⟩ := Cursor.Read.interpret_eq_ok.1 h
    exact Cursor.remaining_lt_of_tag_of_read htag (by simp) hread c₁.remaining_int32_le
  · rename_i c₁ htag
    obtain ⟨_, hread, _⟩ := Cursor.Read.interpret_eq_ok.1 h
    exact Cursor.remaining_lt_of_tag_of_read htag (by simp) hread c₁.remaining_string_le
  · cases h
  · cases h

/-- The reading carried on to its end. -/
def run (p : Progress) (c : Cursor) : Except DecodeError (Progress × Cursor) :=
  if p.tally.finished then .ok (p, c)
  else
    match _h : p.next c with
    | .error e => .error e
    | .ok (move, c') => run (p.apply move) c'
termination_by c.remaining
decreasing_by exact remaining_lt_of_next _h

end Progress

/-- The header read from the front of a byte string over an earlier one, and the number of bytes
that it took. -/
def decode (h : Header) (bs : Bytes) : Except DecodeError (Header × Nat) := do
  let (p, c) ← (Progress.start h).run (.start bs)
  return ({ p.header with tokenCount := Int32.ofNat p.tally.complete }, c.position)

end Header

end ChannelPreset
