import ChannelPreset.Section.Kind
import ChannelPreset.Token.Cursor

/-!
# Decoding Errors

Why a preset, or a part of one, is refused. Offsets count from the beginning of the part that was
being decoded; an error of a part is wrapped in the name of the part.
-/

namespace ChannelPreset

/-- The text that opens every preset. -/
def magic : String := "Digidesign Storage - 1.0"

/-- The two parts of a preset behind its opening. -/
inductive Part where
  | header
  | body
  deriving DecidableEq, Repr

/-- The name of a part. -/
def Part.name : Part → String
  | .header => "Header"
  | .body => "Body"

/-- Why decoding failed. -/
inductive DecodeError where
  | stream (error : StreamError)
  | badMagic (found : String)
  | unsupportedInt32Token (name : String)
  | unsupportedStringToken (name : String)
  | unknownSection (name : String)
  | unexpectedTag (tag : Tag) (offset : Nat)
  | missingTokenCount
  | countMismatch (expected : Int32) (found : Nat)
  | lengthMismatch (kind : Kind) (declared consumed : Nat)
  | field (kind : Kind) (error : FieldError)
  | within (part : Part) (error : DecodeError)
  deriving DecidableEq

namespace DecodeError

/-- The error without the parts around it. -/
def rootCause : DecodeError → DecodeError
  | .within _ error => error.rootCause
  | error => error

/-- The message of an error. -/
def message : DecodeError → String
  | .stream error => error.message
  | .badMagic found =>
    s!"bad magic: expected {Quoted.encode magic}, found {Quoted.encode found}"
  | .unsupportedInt32Token name => s!"unsupported Int32 token {Quoted.encode name}"
  | .unsupportedStringToken name => s!"unsupported String token {Quoted.encode name}"
  | .unknownSection name => s!"unrecognized section {Quoted.encode name}"
  | .unexpectedTag tag offset => s!"unexpected {tag.name} tag at offset {offset}"
  | .missingTokenCount => "stream ended before a token count was declared"
  | .countMismatch expected found => s!"expected {expected.toInt} tokens, found {found}"
  | .lengthMismatch kind declared consumed =>
    s!"section {kind.name}: blob is {declared} bytes but {consumed} were consumed"
  | .field kind error => s!"section {kind.name}: {error.message}"
  | .within part error => s!"{part.name}: {error.message}"

end DecodeError

namespace Cursor.Read

variable {α β : Type}

/-- A read of a token stream as a step of decoding: a failed read ends the decoding, and of a value
that was read `meaning` says what it does. -/
def interpret (r : Cursor.Read α) (meaning : α → Except DecodeError β) :
    Except DecodeError (β × Cursor) :=
  match r with
  | (.ok a, c) => (meaning a).map (·, c)
  | (.error e, _) => .error (.stream e)

theorem interpret_eq_ok {r : Cursor.Read α} {meaning : α → Except DecodeError β} {b : β}
    {c : Cursor} :
    r.interpret meaning = .ok (b, c) ↔ ∃ a, r = (.ok a, c) ∧ meaning a = .ok b := by
  obtain ⟨_ | a, _⟩ := r
  · simp [interpret]
  · constructor
    · intro h
      cases hm : meaning a <;> simp_all [interpret, Except.map]
    · rintro ⟨_, hr, hm⟩
      cases hr
      simp [interpret, hm, Except.map]

end Cursor.Read

end ChannelPreset
