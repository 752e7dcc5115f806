import ChannelPreset.Bytes

/-!
# UTF-8

Writing characters as UTF-8, and a reading that never fails: wherever the bytes stop being UTF-8,
the longest part that could have begun a character is replaced by one U+FFFD, and reading goes on
with the next byte. Reading gives back what was written.
-/

namespace ChannelPreset.Utf8

/-- The bytes of one character. -/
def encodeChar (c : Char) : Bytes :=
  let n := c.toNat
  if n < 0x80 then [UInt8.ofNat n]
  else if n < 0x800 then [UInt8.ofNat (0xc0 + n / 64), tail n]
  else if n < 0x10000 then [UInt8.ofNat (0xe0 + n / 4096), tail (n / 64), tail n]
  else [UInt8.ofNat (0xf0 + n / 262144), tail (n / 4096), tail (n / 64), tail n]
where
  /-- A continuation byte with the lowest six bits of `n`. -/
  tail (n : Nat) : UInt8 := UInt8.ofNat (0x80 + n % 64)

/-- The bytes of a text. -/
def encode (text : String) : Bytes :=
  text.toList.flatMap encodeChar

/-- The replacement character, which stands for bytes that are not UTF-8. -/
def replacement : Char := Char.ofNat 0xfffd

/-- The part of a character that has been read: its leading bits, the bounds of the next byte and
how many bytes are still owed. -/
structure Partial where
  bits : Nat
  low : Nat
  high : Nat
  owed : Nat
  deriving DecidableEq

/-- What one byte does to the reading. -/
inductive Step where
  /-- The byte completes a character. -/
  | done (c : Char)
  /-- The character needs more bytes. -/
  | more (state : Partial)
  /-- The byte cannot stand here. -/
  | refused
  deriving DecidableEq

/-- The step of a byte that starts a character. -/
def start (byte : UInt8) : Step :=
  let b := byte.toNat
  if b < 0x80 then .done (Char.ofNat b)
  else if b < 0xc2 then .refused
  else if b < 0xe0 then .more ⟨b - 0xc0, 0x80, 0xbf, 1⟩
  else if b = 0xe0 then .more ⟨0, 0xa0, 0xbf, 2⟩
  else if b = 0xed then .more ⟨13, 0x80, 0x9f, 2⟩
  else if b < 0xf0 then .more ⟨b - 0xe0, 0x80, 0xbf, 2⟩
  else if b = 0xf0 then .more ⟨0, 0x90, 0xbf, 3⟩
  else if b < 0xf4 then .more ⟨b - 0xf0, 0x80, 0xbf, 3⟩
  else if b = 0xf4 then .more ⟨4, 0x80, 0x8f, 3⟩
  else .refused

/-- The step of a byte inside a character. -/
def Partial.next (state : Partial) (byte : UInt8) : Step :=
  let b := byte.toNat
  if state.low ≤ b ∧ b ≤ state.high then
    let bits := state.bits * 64 + (b - 0x80)
    if state.owed ≤ 1 then .done (Char.ofNat bits)
    else .more ⟨bits, 0x80, 0xbf, state.owed - 1⟩
  else .refused

/-- The characters read when `state` is what has been read of the first one. -/
def decodeFrom : Option Partial → Bytes → List Char
  | none, [] => []
  | some _, [] => [replacement]
  | none, b :: bs =>
    match start b with
    | .done c => c :: decodeFrom none bs
    | .more state => decodeFrom (some state) bs
    | .refused => replacement :: decodeFrom none bs
  | some state, b :: bs =>
    match state.next b with
    | .done c => c :: decodeFrom none bs
    | .more state => decodeFrom (some state) bs
    | .refused =>
      match start b with
      | .done c => replacement :: c :: decodeFrom none bs
      | .more state => replacement :: decodeFrom (some state) bs
      | .refused => replacement :: replacement :: decodeFrom none bs

/-- The text that bytes stand for, with U+FFFD where they are not UTF-8. -/
def decode (bs : Bytes) : String :=
  String.ofList (decodeFrom none bs)

end ChannelPreset.Utf8
