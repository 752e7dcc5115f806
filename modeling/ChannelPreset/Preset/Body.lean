import ChannelPreset.Preset.Tally
import ChannelPreset.Section.Basic
import ChannelPreset.Token.Basic

/-!
# The Body of a Preset

The body holds the eleven sections. Its stored form is a count and as many pairs of a section name
and a blob; the count may stand anywhere, and reading ends as soon as the count and the number of
blobs read agree. A blob replaces its section, and a section without a blob keeps its fields.
-/

namespace ChannelPreset

/-- The body of a preset. -/
structure Body where
  tokenCount : Int32
  sections : (k : Kind) → Section k
  /-- The sections that the last decoding found, in the order of their first blobs. -/
  decoded : List Kind

namespace Body

/-- The count of a body that holds every section. -/
def catalogCount : Int32 := Int32.ofNat Kind.all.length

/-- The body of a new preset. -/
def initial : Body :=
  { tokenCount := catalogCount
    sections := Section.initial
    decoded := [] }

instance : Inhabited Body := ⟨initial⟩

/-- The body with another section of one kind. -/
def update {k : Kind} (b : Body) (s : Section k) : Body :=
  { b with sections := fun j => if h : j = k then h ▸ s else b.sections j }

@[simp]
theorem sections_update_self {k : Kind} (b : Body) (s : Section k) :
    (b.update s).sections k = s := by
  simp [update]

@[simp]
theorem sections_update_of_ne {j k : Kind} (b : Body) (s : Section k) (h : j ≠ k) :
    (b.update s).sections j = b.sections j := by
  simp [update, h]

/-- Whether the last decoding found a section. -/
def wasDecoded (b : Body) (k : Kind) : Bool :=
  b.decoded.contains k

/-- The tokens of a body. -/
def tokens (b : Body) : List Token :=
  .tokenCount catalogCount
    :: Kind.all.flatMap fun k => [.string k.name, .bytes (b.sections k).encode]

/-- The stored form. -/
def encode (b : Body) : Bytes :=
  Token.encodeAll b.tokens

/-- The descriptions of all sections. -/
def describe (b : Body) : String :=
  String.join (Kind.all.map fun k => (b.sections k).describe)

/-- Equality of bodies, where numbers are compared as numbers. -/
def equals (b c : Body) : Bool :=
  b.tokenCount == c.tokenCount
    && Kind.all.all (fun k => (b.sections k).equals (c.sections k))
    && b.decoded == c.decoded

/-! ## Decoding -/

/-- The body with one section read from a blob, which the section must take as a whole. -/
def dispatch (b : Body) (k : Kind) (blob : Bytes) : Except DecodeError Body :=
  match (b.sections k).decode blob with
  | .error e => .error (.field k e)
  | .ok s =>
    if s.length = blob.length then
      .ok { b.update s with
        decoded := if b.wasDecoded k then b.decoded else b.decoded ++ [k] }
    else .error (.lengthMismatch k blob.length s.length)

/-- What one token, with its value, does while a body is read. -/
inductive Move where
  /-- It declares the number of blobs. -/
  | count (declared : Int32)
  /-- It names the section of the blob that follows. -/
  | name (text : String)
  /-- It is the blob of a section. -/
  | blob (kind : Kind) (blob : Bytes)
  deriving DecidableEq

/-- How far the reading of a body has come. -/
structure Progress where
  body : Body
  /-- The name whose blob has not been read yet. -/
  pending : Option String
  /-- The count, and the blobs that have been read. -/
  tally : Tally

namespace Progress

/-- Nothing has been read, and no section has been found. -/
def start (b : Body) : Progress :=
  { body := { b with decoded := [] }, pending := none, tally := .start }

/-- The section that the pending name stands for; without a pending name a blob is out of place. -/
def target (p : Progress) (offset : Nat) : Except DecodeError Kind :=
  match p.pending with
  | none => .error (.unexpectedTag .bytes offset)
  | some name =>
    match Kind.ofName? name with
    | some k => .ok k
    | none => .error (.unknownSection name)

/-- The next token of the stream, and the cursor behind it. -/
def next (p : Progress) (c : Cursor) : Except DecodeError (Move × Cursor) :=
  match c.tag with
  | (.tokenCount, c') =>
    if p.tally.declared.isNone then c'.int32.interpret fun count => .ok (.count count)
    else .error (.unexpectedTag .tokenCount c.position)
  | (.string, c') =>
    if p.pending.isNone then c'.string.interpret fun text => .ok (.name text)
    else .error (.unexpectedTag .string c.position)
  | (.bytes, c') =>
    match p.target c.position with
    | .ok k => c'.bytes.interpret fun blob => .ok (.blob k blob)
    | .error e => .error e
  | (.invalid, _) => .error p.tally.shortfall
  | (tag, _) => .error (.unexpectedTag tag c.position)

/-- The progress after a token. -/
def apply (p : Progress) : Move → Except DecodeError Progress
  | .count declared => .ok { p with tally := p.tally.declare declared }
  | .name text => .ok { p with pending := some text }
  | .blob k blob =>
    match p.body.dispatch k blob with
    | .ok body => .ok { body, pending := none, tally := p.tally.add }
    | .error e => .error e

/-- Every token takes bytes. -/
theorem remaining_lt_of_next {p : Progress} {c c' : Cursor} {move : Move}
    (h : p.next c = .ok (move, c')) : c'.remaining < c.remaining := by
  unfold next at h
  split at h
  · rename_i c₁ htag
    split at h
    · obtain ⟨_, hread, _⟩ := Cursor.Read.interpret_eq_ok.1 h
      exact Cursor.remaining_lt_of_tag_of_read htag (by simp) hread c₁.remaining_int32_le
    · cases h
  · rename_i c₁ htag
    split at h
    · obtain ⟨_, hread, _⟩ := Cursor.Read.interpret_eq_ok.1 h
      exact Cursor.remaining_lt_of_tag_of_read htag (by simp) hread c₁.remaining_string_le
    · cases h
  · rename_i c₁ htag
    split at h
    · obtain ⟨_, hread, _⟩ := Cursor.Read.interpret_eq_ok.1 h
      exact Cursor.remaining_lt_of_tag_of_read htag (by simp) hread c₁.remaining_bytes_le
    · cases h
  · cases h
  · cases h

/-- The reading carried on to its end. -/
def run (p : Progress) (c : Cursor) : Except DecodeError (Progress × Cursor) :=
  if p.tally.finished then .ok (p, c)
  else
    match _h : p.next c with
    | .error e => .error e
    | .ok (move, c') =>
      match p.apply move with
      | .error e => .error e
      | .ok p' => run p' c'
termination_by c.remaining
decreasing_by exact remaining_lt_of_next _h

end Progress

/-- The body read from the front of a byte string over an earlier one, and the number of bytes that
it took. -/
def decode (b : Body) (bs : Bytes) : Except DecodeError (Body × Nat) := do
  let (p, c) ← (Progress.start b).run (.start bs)
  return ({ p.body with tokenCount := Int32.ofNat p.tally.complete }, c.position)

end Body

end ChannelPreset
