import ChannelPreset.Field.Encoding

/-!
# Batches of Reads

A batch takes the values of a record one after the other and keeps the first failure. From then on
every read gives the zero value of its encoding, so all values can be asked for before the failure
is looked at.
-/

namespace ChannelPreset

/-- A record that is being read, and the first failure so far. -/
structure Batch where
  record : Bytes
  failure : Option FieldError
  deriving DecidableEq

namespace Batch

/-- A batch that has read nothing. -/
def start (record : Bytes) : Batch := ⟨record, none⟩

/-- The value at an offset, or the zero value when this read or an earlier one fails. -/
def read (b : Batch) (e : Encoding) (offset : Nat) : e.Value × Batch :=
  match b.failure with
  | some _ => (e.zero, b)
  | none =>
    match e.read b.record offset with
    | .ok value => (value, b)
    | .error failure => (e.zero, { b with failure := some failure })

/-- What a batch came to. -/
def finish (b : Batch) : Except FieldError Unit :=
  match b.failure with
  | some failure => .error failure
  | none => .ok ()

/-- The values at a list of places, read one after the other. -/
def readList (b : Batch) : List (Encoding × Nat) → List ((e : Encoding) × e.Value) × Batch
  | [] => ([], b)
  | (e, offset) :: places =>
    let (value, b) := b.read e offset
    let (values, b) := b.readList places
    (⟨e, value⟩ :: values, b)

@[simp]
theorem record_read (b : Batch) (e : Encoding) (offset : Nat) :
    (b.read e offset).2.record = b.record := by
  unfold read
  split
  · rfl
  · split <;> rfl

end Batch

end ChannelPreset
