import ChannelPreset.Field.Basic

/-!
# The Section Catalog

A preset holds eleven sections. The catalog gives each one its name, its length rule and its fields,
the latter with the values of a new preset. The order of `Kind.all` is the order in which sections
are written; it is the order of their names.
-/

namespace ChannelPreset

/-- The sections of a preset. -/
inductive Kind where
  | audioMasterStrip
  | audioStrip
  | auxBussesOptions
  | auxBussesOptions2
  | busConfigMode
  | header
  | inputStrip
  | matrixMasterStrip
  | micLineStrips
  | strip
  | stripType
  deriving DecidableEq, Repr

/-- How long the stored form of a section is. -/
inductive Extent where
  /-- Always the same. -/
  | fixed (length : Nat)
  /-- As long as what it was last read from, and at first this long. -/
  | remembered (initial : Nat)
  /-- Up to the end of its last field. -/
  | fitted
  deriving DecidableEq, Repr

/-- What a section keeps besides its fields in order to know its length. -/
abbrev Extent.Memory : Extent → Type
  | .fixed _ => Unit
  | .remembered _ => Nat
  | .fitted => Unit

namespace Kind

/-- Every section, in the order of writing. -/
def all : List Kind :=
  [.audioMasterStrip, .audioStrip, .auxBussesOptions, .auxBussesOptions2, .busConfigMode,
    .header, .inputStrip, .matrixMasterStrip, .micLineStrips, .strip, .stripType]

theorem mem_all (k : Kind) : k ∈ all := by cases k <;> decide

/-- The name that announces a section in a preset. -/
def name : Kind → String
  | .audioMasterStrip => "AudioMasterStrip"
  | .audioStrip => "AudioStrip"
  | .auxBussesOptions => "AuxBussesOptions"
  | .auxBussesOptions2 => "AuxBussesOptions2"
  | .busConfigMode => "BusConfigMode"
  | .header => "Header"
  | .inputStrip => "InputStrip"
  | .matrixMasterStrip => "MatrixMasterStrip"
  | .micLineStrips => "MicLineStrips"
  | .strip => "Strip"
  | .stripType => "StripType"

/-- The section with a name. -/
def ofName? (name : String) : Option Kind :=
  all.find? (·.name == name)

@[simp]
theorem ofName?_name (k : Kind) : ofName? k.name = some k := by cases k <;> decide

/-- A name stands for at most one section. -/
theorem ofName?_eq_some {name : String} {k : Kind} (h : ofName? name = some k) :
    k.name = name := by
  simpa using List.find?_some h

/-- Whether only the extended variant of a preset holds the section. -/
def isExtended : Kind → Bool
  | .audioMasterStrip | .auxBussesOptions2 | .matrixMasterStrip => true
  | _ => false

/-- The length rule of a section. -/
def extent : Kind → Extent
  | .audioMasterStrip => .fixed 0x0c
  | .audioStrip => .fixed 0x1c
  | .auxBussesOptions => .fixed 0x08
  | .auxBussesOptions2 => .fixed 0x08
  | .busConfigMode => .fixed 0x04
  | .header => .fixed 0x0c
  | .inputStrip => .fixed 0xe8
  | .matrixMasterStrip => .fixed 0x0c
  | .micLineStrips => .remembered 0x65
  | .strip => .fitted
  | .stripType => .fixed 0x04

end Kind

end ChannelPreset
