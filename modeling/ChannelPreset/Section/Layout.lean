import ChannelPreset.Section.Kind

/-!
# Section Layouts

The fields of each section: name, offset, encoding and the value in a new preset.
-/

namespace ChannelPreset

open ChannelPreset.Field (blank)

namespace InputStrip

/-- The fields of one equalizer band. The two middle bands of a new preset are curves, the outer
ones shelves. -/
def eqBand (index : Nat) : List Field :=
  let start := 0x10 + index * 0x10
  let band := s!"EQ Band {index + 1}"
  let shape : EqType := if index = 1 ∨ index = 2 then .curve else .shelf
  [blank s!"{band} In" start .bool,
    (blank s!"{band} Type" (start + 0x01) .eqType).withValue shape,
    blank s!"{band} Gain" (start + 0x04) .tenths,
    blank s!"{band} Freq" (start + 0x08) .int32,
    blank s!"{band} Q" (start + 0x0c) .hundredths]

/-- The switch of one bus. -/
def busAssign (index : Nat) : Field :=
  blank s!"Bus {index + 1} Assign" (0x50 + index) .bool

/-- The offset of one auxiliary send. -/
def auxStart (index : Nat) : Nat := 0x58 + index * 0x0c

/-- The fields of one auxiliary send. -/
def auxSend (index : Nat) : List Field :=
  let start := auxStart index
  let send := s!"Aux {index + 1}"
  [blank s!"{send} In" start .bool,
    blank s!"{send} Pre" (start + 0x01) .bool,
    blank s!"{send} Level" (start + 0x04) .tenths]

/-- The pan of one auxiliary send, which only the first sends have. -/
def auxPan (index : Nat) : Field :=
  blank s!"Aux {index + 1} Pan" (auxStart index + 0x08) .tenths

/-- All fields of the section. -/
def fields : List Field :=
  [blank "Input Patch" 0x00 .int32,
    blank "Phantom" 0x04 .bool,
    blank "Pad" 0x05 .bool,
    blank "Gain" 0x08 .tenths,
    blank "EQ In" 0x0c .bool,
    blank "EQ Dyn Order" 0x0d .eqDyn]
  ++ (List.range 4).flatMap eqBand
  ++ (List.range 8).map busAssign
  ++ (List.range 12).flatMap auxSend
  ++ (List.range 6).map auxPan

end InputStrip

namespace Kind

/-- The fields of a section with the values of a new preset, in the order of reading. -/
def fields : Kind → List Field
  | .audioMasterStrip =>
    [blank "Master Fader" 0x00 .tenths,
      blank "Master Mute" 0x04 .bool,
      blank "Master Pan" 0x08 .tenths]
  | .audioStrip =>
    [blank "Phase Invert" 0x00 .bool,
      blank "Mute" 0x01 .bool,
      blank "Solo Safe" 0x02 .bool,
      blank "Delay In" 0x03 .bool,
      blank "Delay" 0x04 .delay,
      blank "Fader" 0x08 .tenths,
      blank "Pan" 0x0c .tenths,
      blank "HPF In" 0x10 .bool,
      blank "HPF Freq" 0x14 .int32,
      blank "Direct Out Level" 0x18 .tenths]
  | .auxBussesOptions =>
    [blank "Aux 1-2 Stereo" 0x00 .bool,
      blank "Aux 3-4 Stereo" 0x01 .bool,
      blank "Aux 5-6 Stereo" 0x02 .bool,
      blank "Aux 7-8 Stereo" 0x03 .bool,
      blank "Aux 9-10 Stereo" 0x04 .bool,
      blank "Aux 11-12 Stereo" 0x05 .bool,
      blank "Aux Pans Follow Main" 0x06 .bool,
      blank "Aux Post Mute" 0x07 .bool]
  | .auxBussesOptions2 =>
    [blank "Group Sends Pre Mute" 0x00 .bool,
      blank "Group Sends Follow Pan" 0x01 .bool,
      blank "Send Level Mode" 0x04 .int32]
  | .busConfigMode =>
    [blank "Mode" 0x00 .int32]
  | .header =>
    [blank "Format Version" 0x00 .int32,
      blank "Channel Count" 0x04 .int32,
      blank "Stereo" 0x08 .bool]
  | .inputStrip => InputStrip.fields
  | .matrixMasterStrip =>
    [blank "Matrix Level" 0x00 .tenths,
      blank "Matrix Mute" 0x04 .bool,
      blank "Matrix Pan" 0x08 .tenths]
  | .micLineStrips =>
    [blank "Input Gain" 0x00 .tenths,
      blank "Pad" 0x04 .bool,
      blank "Phantom" 0x05 .bool,
      blank "HPF In" 0x06 .bool,
      blank "LPF In" 0x07 .bool,
      blank "HPF Freq" 0x08 .int32,
      blank "LPF Freq" 0x0c .int32,
      blank "Digital Trim" 0x10 .tenths]
  | .strip =>
    [blank "Selected" 0x00 .bool,
      blank "Color" 0x04 .int32,
      blank "Input Number" 0x08 .int32,
      blank "Channel Name" 0x0c .text]
  | .stripType =>
    [blank "Strip Type" 0x00 .int32]

/-- The layout of a section. -/
def layout (k : Kind) : List Descriptor :=
  k.fields.map Field.toDescriptor

end Kind

end ChannelPreset
