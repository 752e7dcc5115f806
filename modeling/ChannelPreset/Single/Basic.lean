import ChannelPreset.Rounding

/-!
# Single-Precision Numbers

The values of the binary32 format as exact numbers. A finite value is a sign and a magnitude
counted in units of `2^-149`, the distance between the smallest numbers of the format. Every
operation of the format is one exact rational result followed by one rounding to the nearest
magnitude, a half going to the even significand; `Magnitude.nearest` is that rounding.
-/

namespace ChannelPreset

namespace Magnitude

/-- The units in the number one. -/
def one : Nat := 2 ^ 149

/-- The units in `2^128`, the first power of two out of range. -/
def limit : Nat := 2 ^ 128 * one

/-- The distance, in units, between the magnitudes around `units`. -/
def spacing (units : Nat) : Nat := 2 ^ (units.log2 - 23)

end Magnitude

/-- A count of units of `2^-149` is a binary32 magnitude when it has at most 24 significant bits
and lies below `2^128`. -/
def Representable (units : Nat) : Prop :=
  units < Magnitude.limit ∧ Magnitude.spacing units ∣ units

instance (units : Nat) : Decidable (Representable units) :=
  inferInstanceAs (Decidable (_ ∧ _))

/-- The absolute value of a finite binary32 number. -/
structure Magnitude where
  /-- How many times `2^-149` it is. -/
  units : Nat
  representable : Representable units
  deriving DecidableEq

/-- A significand of at most 24 bits, or `2^24` itself, shifted by any power of two is representable
while it stays in range. -/
theorem representable_mul_two_pow {significand : Nat} (shift : Nat) (hs : significand ≤ 2 ^ 24)
    (hlt : significand * 2 ^ shift < Magnitude.limit) : Representable (significand * 2 ^ shift) := by
  refine ⟨hlt, ?_⟩
  unfold Magnitude.spacing
  by_cases h0 : significand * 2 ^ shift = 0
  · rw [h0]
    exact Nat.dvd_zero _
  by_cases heq : significand = 2 ^ 24
  · subst heq
    rw [← Nat.pow_add, Nat.log2_two_pow]
    exact Nat.pow_dvd_pow 2 (by omega)
  · have hlog : (significand * 2 ^ shift).log2 < 24 + shift := by
      rw [Nat.log2_lt h0, Nat.pow_add]
      exact Nat.mul_lt_mul_of_pos_right (by omega) (Nat.two_pow_pos _)
    exact Nat.dvd_mul_left_of_dvd (Nat.pow_dvd_pow 2 (by omega)) _

namespace Magnitude

/-- `numerator / denominator` units, rounded on the grid that the quotient lies in. -/
def roundUnits (numerator denominator : Nat) : Nat :=
  let step := spacing (numerator / denominator)
  Rounding.halfEven numerator (denominator * step) * step

/-- Rounding keeps at most 24 significant bits. -/
theorem representable_roundUnits (numerator denominator : Nat)
    (h : roundUnits numerator denominator < limit) :
    Representable (roundUnits numerator denominator) := by
  refine representable_mul_two_pow _ ?_ h
  refine Nat.le_trans (Rounding.halfEven_le _ _) ?_
  unfold spacing
  rw [← Nat.div_div_eq_div_mul, Nat.succ_le_iff, Nat.div_lt_iff_lt_mul (Nat.two_pow_pos _),
    ← Nat.pow_add]
  refine Nat.lt_of_lt_of_le Nat.lt_log2_self (Nat.pow_le_pow_right (by decide) ?_)
  omega

/-- The magnitude nearest to `numerator / denominator` units, a half going to the even
significand; none when that is not below `2^128`. -/
def nearest (numerator denominator : Nat) : Option Magnitude :=
  if h : roundUnits numerator denominator < limit then
    some ⟨roundUnits numerator denominator, representable_roundUnits _ _ h⟩
  else none

end Magnitude

/-- A binary32 number; all NaNs are one value. -/
inductive Single where
  | nan
  | infinite (negative : Bool)
  | finite (negative : Bool) (magnitude : Magnitude)
  deriving DecidableEq

namespace Single

/-- Zero without a sign. -/
def zero : Single := .finite false ⟨0, by decide⟩

/-- The number with this sign nearest to `numerator / denominator` units, infinite when none is
near. -/
def nearest (negative : Bool) (numerator denominator : Nat) : Single :=
  match Magnitude.nearest numerator denominator with
  | some magnitude => .finite negative magnitude
  | none => .infinite negative

/-! ## Arithmetic -/

/-- The number nearest to an integer. -/
def ofInt (i : Int) : Single :=
  nearest (i < 0) (i.natAbs * Magnitude.one) 1

/-- The product, rounded once. -/
def mul : Single → Single → Single
  | .nan, _ => .nan
  | _, .nan => .nan
  | .infinite s, .infinite t => .infinite (s ^^ t)
  | .infinite s, .finite t m => if m.units = 0 then .nan else .infinite (s ^^ t)
  | .finite s m, .infinite t => if m.units = 0 then .nan else .infinite (s ^^ t)
  | .finite s m, .finite t n => nearest (s ^^ t) (m.units * n.units) Magnitude.one

/-- The quotient, rounded once; a nonzero number divided by zero is infinite, and zero by zero is
no number. -/
def div : Single → Single → Single
  | .nan, _ => .nan
  | _, .nan => .nan
  | .infinite _, .infinite _ => .nan
  | .infinite s, .finite t _ => .infinite (s ^^ t)
  | .finite s _, .infinite t => nearest (s ^^ t) 0 1
  | .finite s m, .finite t n =>
    if n.units = 0 then
      if m.units = 0 then .nan else .infinite (s ^^ t)
    else nearest (s ^^ t) (m.units * Magnitude.one) n.units

instance : Mul Single := ⟨mul⟩

instance : Div Single := ⟨div⟩

/-- Equality of numbers: the two zeros are equal, and NaN differs from everything. -/
def equals : Single → Single → Bool
  | .nan, _ => false
  | _, .nan => false
  | .infinite s, .infinite t => s == t
  | .finite s m, .finite t n => m.units == n.units && (s == t || m.units == 0)
  | _, _ => false

/-! ## Conversion to words -/

/-- The 32-bit word nearest to an integer. -/
def saturate (i : Int) : Int32 :=
  Int32.ofInt (max (-2 ^ 31) (min (2 ^ 31 - 1) i))

/-- The integer with this sign and absolute value. -/
def signed (negative : Bool) (n : Nat) : Int :=
  if negative then -n else n

/-- The word for the integer that `integral` makes of the magnitude, given as a fraction; out of
range it is the last word on that side, and NaN gives zero. -/
def toWord (integral : Nat → Nat → Nat) : Single → Int32
  | .nan => 0
  | .infinite negative => if negative then Int32.minValue else Int32.maxValue
  | .finite negative m => saturate (signed negative (integral m.units Magnitude.one))

/-- The nearest word, a half going away from zero. -/
def roundToWord (x : Single) : Int32 :=
  x.toWord Rounding.halfUp

/-- The word left when the fraction is cut off. -/
def truncateToWord (x : Single) : Int32 :=
  x.toWord (· / ·)

end Single

end ChannelPreset
