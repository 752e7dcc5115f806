import ChannelPreset.Json
import ChannelPreset.Preset.Basic

/-!
# Dumps

A dump is the readable content of a preset as data, for printing as JSON.
-/

namespace ChannelPreset

/-- A section in a dump. -/
structure SectionDump where
  name : String
  size : Nat
  /-- Whether the preset was read from bytes that held the section. -/
  decoded : Bool
  fields : List Entry

/-- The content of a preset. -/
structure Dump where
  magic : String
  version : Int32
  fileType : String
  userComment : String
  sections : List SectionDump

/-- The content of a preset, its sections in the order of the catalog. -/
def Preset.dump (p : Preset) : Dump :=
  { magic
    version := p.header.version
    fileType := p.header.fileType
    userComment := p.header.userComment
    sections := Kind.all.map fun k =>
      { name := k.name
        size := (p.body.sections k).length
        decoded := p.body.wasDecoded k
        fields := (p.body.sections k).entries } }

/-- A line of a description as JSON. -/
def Entry.toJson (e : Entry) : Json :=
  .object [("name", .string e.name), ("offset", .number e.offset), ("value", .string e.value)]

/-- A section as JSON. -/
def SectionDump.toJson (s : SectionDump) : Json :=
  .object [("name", .string s.name), ("size", .number s.size), ("decoded", .bool s.decoded),
    ("fields", .array (s.fields.map Entry.toJson))]

/-- A dump as JSON. -/
def Dump.toJson (d : Dump) : Json :=
  .object [("magic", .string d.magic),
    ("header", .object [("version", .number d.version.toInt), ("file_type", .string d.fileType),
      ("user_comment", .string d.userComment)]),
    ("sections", .array (d.sections.map SectionDump.toJson))]

end ChannelPreset
