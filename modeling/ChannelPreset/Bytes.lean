import ChannelPreset.Power

/-!
# Bytes and Little-Endian Words

Byte strings, the little-endian form of a 32-bit word, and the two accesses by offset that a fixed
record layout needs: reading a slice that must lie inside the string, and writing a part that
changes nothing unless it fits as a whole.
-/

namespace ChannelPreset

/-- A byte string. -/
abbrev Bytes := List UInt8

namespace Bytes

/-! ## Little-endian numbers -/

/-- The `width` bytes of `n`, least significant first; what does not fit is dropped. -/
def ofNat : Nat → Nat → Bytes
  | 0, _ => []
  | width + 1, n => UInt8.ofNat (n % 256) :: ofNat width (n / 256)

/-- The number whose little-endian bytes these are. -/
def toNat : Bytes → Nat
  | [] => 0
  | b :: bs => b.toNat + 256 * toNat bs

@[simp]
theorem length_ofNat (width n : Nat) : (ofNat width n).length = width := by
  induction width generalizing n with
  | zero => rfl
  | succ width ih => simp [ofNat, ih]

/-- Reading back the bytes of a number gives the number modulo the range of its width. -/
theorem toNat_ofNat (width n : Nat) : toNat (ofNat width n) = n % 256 ^ width := by
  induction width generalizing n with
  | zero => simp [ofNat, toNat, Nat.mod_one]
  | succ width ih =>
    have h : (UInt8.ofNat (n % 256)).toNat = n % 256 := by simp
    rw [ofNat, toNat, ih, h, Nat.pow_succ', Nat.mod_mul]

/-- Every byte string is the little-endian form of the number it stands for. -/
theorem ofNat_toNat (bs : Bytes) : ofNat bs.length bs.toNat = bs := by
  induction bs with
  | nil => rfl
  | cons b bs ih =>
    have hb : b.toNat < 256 := b.toNat_lt
    rw [List.length_cons, ofNat, toNat, Nat.add_mul_mod_self_left, Nat.mod_eq_of_lt hb,
      Nat.add_mul_div_left _ _ (by decide), Nat.div_eq_of_lt hb, Nat.zero_add, ih,
      UInt8.ofNat_toNat]

theorem toNat_lt (bs : Bytes) : bs.toNat < 256 ^ bs.length := by
  induction bs with
  | nil => decide
  | cons b bs ih =>
    have hb : b.toNat < 256 := b.toNat_lt
    rw [toNat, List.length_cons, Nat.pow_succ]
    omega

/-! ## Words -/

/-- The four little-endian bytes of a word, in two's complement. -/
def ofWord (word : Int32) : Bytes :=
  ofNat 4 word.toUInt32.toNat

/-- The word with these little-endian bytes. -/
def toWord (bs : Bytes) : Int32 :=
  (UInt32.ofNat bs.toNat).toInt32

@[simp]
theorem length_ofWord (word : Int32) : (ofWord word).length = 4 := length_ofNat _ _

@[simp]
theorem toWord_ofWord (word : Int32) : toWord (ofWord word) = word := by
  have h : word.toUInt32.toNat % 256 ^ 4 = word.toUInt32.toNat :=
    Nat.mod_eq_of_lt word.toUInt32.toNat_lt
  rw [toWord, ofWord, toNat_ofNat, h, UInt32.ofNat_toNat, Int32.toInt32_toUInt32]

/-- Four bytes are the little-endian form of the word they stand for. -/
theorem ofWord_toWord {bs : Bytes} (h : bs.length = 4) : ofWord (toWord bs) = bs := by
  have hlt : bs.toNat < 2 ^ 32 := by simpa [h] using bs.toNat_lt
  rw [ofWord, toWord, UInt32.toUInt32_toInt32, UInt32.toNat_ofNat_of_lt' hlt, ← h, ofNat_toNat]

/-! ## Access by offset -/

/-- The `width` bytes from `offset` on, where all of them exist. -/
def slice? (bs : Bytes) (offset width : Nat) : Option Bytes :=
  if offset + width ≤ bs.length then some ((bs.drop offset).take width) else none

/-- The string with `part` written over it at `offset`; a part that does not fit as a whole is
dropped, so the length never changes. -/
def overwrite (bs : Bytes) (offset : Nat) (part : Bytes) : Bytes :=
  if offset + part.length ≤ bs.length then
    bs.take offset ++ part ++ bs.drop (offset + part.length)
  else bs

theorem length_of_slice? {bs part : Bytes} {offset width : Nat}
    (h : bs.slice? offset width = some part) : part.length = width := by
  unfold slice? at h
  split at h
  · cases h
    rw [List.length_take, List.length_drop]
    omega
  · cases h

@[simp]
theorem length_overwrite (bs : Bytes) (offset : Nat) (part : Bytes) :
    (bs.overwrite offset part).length = bs.length := by
  unfold overwrite
  split <;> simp
  omega

end Bytes

end ChannelPreset
