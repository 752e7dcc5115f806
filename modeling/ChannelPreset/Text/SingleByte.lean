import ChannelPreset.Bytes

/-!
# Single-Byte Text

Text stored one byte a character and ended by a zero byte. A byte is the character with the same
code point; a character above U+00FF is stored as a question mark, and nothing behind a U+0000 is
stored.
-/

namespace ChannelPreset

/-- The part of a text in front of its first U+0000. -/
def beforeNul (text : String) : List Char :=
  text.toList.takeWhile (· != Char.ofNat 0)

namespace SingleByte

/-- The byte stored for a character. -/
def encodeChar (c : Char) : UInt8 :=
  if c.toNat < 256 then UInt8.ofNat c.toNat else 0x3f

/-- The bytes stored for a text, its terminator included. -/
def encode (text : String) : Bytes :=
  (beforeNul text).map encodeChar ++ [0]

/-- The text of stored bytes, without their terminator. -/
def decode (bs : Bytes) : String :=
  String.ofList (bs.map fun b => Char.ofNat b.toNat)

/-- How many bytes a text is stored in. -/
def length (text : String) : Nat :=
  (beforeNul text).length + 1

@[simp]
theorem length_encode (text : String) : (encode text).length = length text := by
  simp [encode, length]

end SingleByte

end ChannelPreset
