import ChannelPreset.Bytes
import ChannelPreset.Text.Hex

/-!
# Token Tags

Every value of a token stream follows one byte that names its type. Reading a tag where the stream
has ended gives a tag of its own, so that a tag can always be read.
-/

namespace ChannelPreset

/-- The type of the value behind a tag byte. -/
inductive Tag where
  | int32
  | string
  | tokenCount
  | bytes
  /-- A byte that names no type. -/
  | unknown (byte : UInt8)
  /-- No byte at all: the stream has ended. -/
  | invalid
  deriving DecidableEq, Repr

namespace Tag

/-- The tag that a byte is. -/
def ofByte (byte : UInt8) : Tag :=
  if byte = 0x06 then .int32
  else if byte = 0x0a then .string
  else if byte = 0x0b then .tokenCount
  else if byte = 0x0d then .bytes
  else .unknown byte

/-- The byte of a tag. -/
def toByte : Tag → UInt8
  | .int32 => 0x06
  | .string => 0x0a
  | .tokenCount => 0x0b
  | .bytes => 0x0d
  | .unknown byte => byte
  | .invalid => 0xff

@[simp]
theorem toByte_ofByte (byte : UInt8) : (ofByte byte).toByte = byte := by
  unfold ofByte
  repeat' split
  all_goals simp_all [toByte]

/-- The name of a tag. -/
def name : Tag → String
  | .int32 => "Int32"
  | .string => "String"
  | .tokenCount => "TokenCount"
  | .bytes => "Bytes"
  | .unknown byte => "unknown (0x" ++ Hex.padded 2 byte.toNat ++ ")"
  | .invalid => "Invalid"

/-- How many bytes a tag takes. -/
def width : Nat := 1

/-- The tag at an offset of a byte string; past its end there is none. -/
def read (bs : Bytes) (offset : Nat) : Tag :=
  match bs[offset]? with
  | some byte => .ofByte byte
  | none => .invalid

end Tag

end ChannelPreset
