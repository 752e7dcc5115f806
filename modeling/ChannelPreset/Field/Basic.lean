import ChannelPreset.Field.Batch

/-!
# Fields

A field is a named value with its place and its encoding; a record is a list of fields over one
byte string. Reading replaces the values and nothing else. Writing puts the values into a byte
string of fixed length, where one that does not fit is dropped. Describing lists the values by
offset.
-/

namespace ChannelPreset

/-- What a layout says about a field. -/
structure Descriptor where
  name : String
  offset : Nat
  encoding : Encoding
  deriving DecidableEq

/-- A field of a record with its value. -/
structure Field extends Descriptor where
  value : encoding.Value

/-- A line of a description. -/
structure Entry where
  name : String
  offset : Nat
  value : String
  deriving DecidableEq, Repr

namespace Field

/-- A field that nothing has been stored in yet. -/
def blank (name : String) (offset : Nat) (encoding : Encoding) : Field :=
  { name, offset, encoding, value := encoding.initial }

/-- The field with another value. -/
def withValue (f : Field) (value : f.encoding.Value) : Field :=
  { f with value := value }

/-- The bytes that the value is stored as. -/
def bytes (f : Field) : Bytes := f.encoding.encode f.value

/-- The offset behind the last byte of the field. -/
def stop (f : Field) : Nat := f.offset + f.bytes.length

/-- The field as a line of a description. -/
def entry (f : Field) : Entry :=
  { name := f.name, offset := f.offset, value := f.encoding.render f.value }

/-- The field read anew. -/
def read (b : Batch) (f : Field) : Field × Batch :=
  let (value, b) := b.read f.encoding f.offset
  (f.withValue value, b)

/-- Equality of fields, where numbers are compared as numbers. -/
def equals (f g : Field) : Bool :=
  if h : f.toDescriptor = g.toDescriptor then
    f.encoding.equals f.value ((congrArg Descriptor.encoding h).symm ▸ g.value)
  else false

end Field

namespace Record

/-- The fields read anew, in order. -/
def read (b : Batch) : List Field → List Field × Batch
  | [] => ([], b)
  | f :: fs =>
    let (f, b) := f.read b
    let (fs, b) := read b fs
    (f :: fs, b)

/-- The byte string with every field written into it, in order. -/
def write (bs : Bytes) (fs : List Field) : Bytes :=
  fs.foldl (fun bs f => bs.overwrite f.offset f.bytes) bs

/-- The fields written into a string of zeros. -/
def encode (length : Nat) (fs : List Field) : Bytes :=
  write (List.replicate length 0) fs

/-- The lines of a description, by offset; fields at one offset keep their order. -/
def describe (fs : List Field) : List Entry :=
  (fs.map Field.entry).mergeSort fun a b => a.offset ≤ b.offset

/-- Reading keeps the layout. -/
@[simp]
theorem map_toDescriptor_read (b : Batch) (fs : List Field) :
    (read b fs).1.map Field.toDescriptor = fs.map Field.toDescriptor := by
  induction fs generalizing b with
  | nil => rfl
  | cons f fs ih => simp [read, Field.read, Field.withValue, ih]

@[simp]
theorem length_write (bs : Bytes) (fs : List Field) : (write bs fs).length = bs.length := by
  induction fs generalizing bs with
  | nil => rfl
  | cons f fs ih => exact (ih _).trans (Bytes.length_overwrite _ _ _)

@[simp]
theorem length_encode (length : Nat) (fs : List Field) : (encode length fs).length = length := by
  simp [encode]

end Record

end ChannelPreset
