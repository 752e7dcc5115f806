import ChannelPreset.Section.Layout

/-!
# Sections

A section is a record with the layout that the catalog gives its kind. Reading one gives the length
that it claims to have taken, which is the length that it would be written with, and need not be
the length of the bytes it was read from.
-/

namespace ChannelPreset

/-- A section of a preset. -/
structure Section (k : Kind) where
  fields : List Field
  /-- The length that a section of remembered length keeps. -/
  memory : k.extent.Memory
  layout : fields.map Field.toDescriptor = k.layout

namespace Section

variable {k : Kind}

/-- What a new section keeps. -/
def initialMemory : (e : Extent) → e.Memory
  | .fixed _ => ()
  | .remembered length => length
  | .fitted => ()

/-- What is kept after reading a byte string of this length. -/
def memoryAfter (length : Nat) : (e : Extent) → e.Memory
  | .fixed _ => ()
  | .remembered _ => length
  | .fitted => ()

/-- The section of a new preset. -/
def initial (k : Kind) : Section k :=
  { fields := k.fields
    memory := initialMemory k.extent
    layout := rfl }

instance : Inhabited (Section k) := ⟨initial k⟩

/-- The length given by a length rule. -/
def lengthOf (fields : List Field) : (e : Extent) → e.Memory → Nat
  | .fixed length, _ => length
  | .remembered _, length => length
  | .fitted, _ => (fields.map Field.stop).foldl max 0

/-- The length of the stored form. -/
def length (s : Section k) : Nat :=
  lengthOf s.fields k.extent s.memory

/-- The stored form. -/
def encode (s : Section k) : Bytes :=
  Record.encode s.length s.fields

/-- The section with every field read from a byte string. -/
def reread (s : Section k) (bs : Bytes) : Section k :=
  { fields := (Record.read (.start bs) s.fields).1
    memory := memoryAfter bs.length k.extent
    layout := (Record.map_toDescriptor_read _ _).trans s.layout }

/-- The section read anew from a byte string, unless a field cannot be read. -/
def decode (s : Section k) (bs : Bytes) : Except FieldError (Section k) := do
  (Record.read (.start bs) s.fields).2.finish
  return s.reread bs

/-- The lines that describe the fields, by offset. -/
def entries (s : Section k) : List Entry :=
  Record.describe s.fields

/-- The description: a title with the length, and a line for each field. -/
def describe (s : Section k) : String :=
  String.join (s!"[{k.name}] {s.length} bytes\n" :: s.entries.map line)
where
  /-- The line of one field. -/
  line (e : Entry) : String := s!"  {Hex.offset e.offset} {e.name}: {e.value}\n"

/-- Equality of sections, where numbers are compared as numbers. -/
def equals (s t : Section k) : Bool :=
  s.fields.length == t.fields.length
    && (s.fields.zip t.fields).all (fun (f, g) => f.equals g)
    && s.length == t.length

/-- The fields with new values for those called `name`; a value that `value` does not give is kept.
-/
def assignFields (name : String) (value : (e : Encoding) → Option e.Value) (f : Field) : Field :=
  if f.name = name then
    match value f.encoding with
    | some v => f.withValue v
    | none => f
  else f

/-- The section with a new value for the field called `name`, made for the encoding of the field. -/
def assign (s : Section k) (name : String) (value : (e : Encoding) → Option e.Value) :
    Section k :=
  { s with
    fields := s.fields.map (assignFields name value)
    layout := by
      rw [← s.layout, List.map_map]
      refine List.map_congr_left fun f _ => ?_
      simp only [Function.comp, assignFields]
      repeat' split
      all_goals rfl }

end Section

end ChannelPreset
