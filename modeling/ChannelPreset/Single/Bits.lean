import ChannelPreset.Single.Basic

/-!
# Bit Patterns of Single-Precision Numbers

The interchange form of the format: one sign bit, eight bits of exponent and 23 bits of fraction.
-/

namespace ChannelPreset.Single

/-- The units that an exponent field below 255 and a fraction field stand for. -/
def fieldUnits (exponent fraction : Nat) : Nat :=
  if exponent = 0 then fraction else (2 ^ 23 + fraction) * 2 ^ (exponent - 1)

theorem representable_fieldUnits {exponent fraction : Nat} (he : exponent < 255)
    (hf : fraction < 2 ^ 23) : Representable (fieldUnits exponent fraction) := by
  unfold fieldUnits
  split
  · have h := representable_mul_two_pow 0 (by omega : fraction ≤ 2 ^ 24)
      (Nat.lt_of_lt_of_le (by omega : fraction * 2 ^ 0 < 2 ^ 23) (by decide))
    simpa using h
  · refine representable_mul_two_pow _ (by omega) ?_
    calc (2 ^ 23 + fraction) * 2 ^ (exponent - 1)
        < 2 ^ 24 * 2 ^ (exponent - 1) :=
          Nat.mul_lt_mul_of_pos_right (by omega) (Nat.two_pow_pos _)
      _ ≤ 2 ^ 24 * 2 ^ 253 :=
          Nat.mul_le_mul_left _ (Nat.pow_le_pow_right (by decide) (by omega))
      _ ≤ Magnitude.limit := by decide

/-- The number with this bit pattern. -/
def ofBits (bits : UInt32) : Single :=
  let negative := decide (2 ^ 31 ≤ bits.toNat)
  let exponent := bits.toNat / 2 ^ 23 % 256
  let fraction := bits.toNat % 2 ^ 23
  if h : exponent < 255 then
    .finite negative ⟨fieldUnits exponent fraction,
      representable_fieldUnits h (Nat.mod_lt _ (by decide))⟩
  else if fraction = 0 then .infinite negative
  else .nan

/-- The exponent and fraction fields of a magnitude, as one number. -/
def fieldBits (units : Nat) : Nat :=
  if units < 2 ^ 23 then units
  else (units.log2 - 22) * 2 ^ 23 + (units / Magnitude.spacing units - 2 ^ 23)

/-- The bit pattern of a number; NaN has the quiet pattern without a sign. -/
def toBits : Single → UInt32
  | .nan => 0x7fc00000
  | .infinite negative => signBit negative + 0x7f800000
  | .finite negative m => signBit negative + UInt32.ofNat (fieldBits m.units)
where
  /-- The top bit, set for a negative number. -/
  signBit (negative : Bool) : UInt32 := if negative then 0x80000000 else 0

end ChannelPreset.Single
