import ChannelPreset.Proofs.Single.Rewriting

/-!
# Whole Numbers Written for Parts

The whole number that is written for a magnitude in parts of ten or a hundred is written again when
it has been read, unless it drifts (`Magnitude.rewritten_written`).

From `2 ^ 23` on this is not true of all whole numbers, but of those that are written. Such a number
is the rounded product of a magnitude, and where the quotients are coarser than the products no other
magnitude is near enough to its quotient (`Magnitude.roundUnits_of_product`).
-/

namespace ChannelPreset.Magnitude

open Rounding (halfEven halfEven_eq halfUp)

variable {d i units b e : Nat}

/-- The whole number that is written for a magnitude in parts of `d`. -/
def written (d units : Nat) : Nat := halfUp (roundUnits (units * d) 1) one

/-- What is rounded to fewer than `2 ^ 24` places is less than that many. -/
theorem lt_of_roundUnits_eq {n : Nat} (h : roundUnits n 1 = b * 2 ^ e) (hb : b < 2 ^ 24) :
    n < 2 ^ (e + 24) := by
  have hbound : b * 2 ^ e ≤ (2 ^ 24 - 1) * 2 ^ e := Nat.mul_le_mul_right _ (by omega)
  have hpos := Nat.two_pow_pos e
  rw [Nat.pow_add, Nat.mul_comm]
  by_cases hsmall : n < 2 ^ 23
  · omega
  · have hnear := (@roundUnits_near_of_le n 1 Nat.one_pos (by omega)).2
    rw [h] at hnear
    omega

/-- Where the quotients are coarse, the magnitude that a product was made of is found again. -/
theorem roundUnits_of_product (h : Scales d i) (hu : Representable units) (hb : b < 2 ^ 24)
    (hcoarse : 2 ^ 24 * d ≤ b * 2 ^ (i + 1)) (he : i + 1 ≤ e)
    (hproduct : roundUnits (units * d) 1 = b * 2 ^ e) : roundUnits (b * 2 ^ e) d = units := by
  obtain ⟨k, rfl⟩ := Nat.exists_eq_add_of_le he
  have hnear := roundUnits_near_of_lt Nat.one_pos
    (Nat.lt_of_lt_of_eq (lt_of_roundUnits_eq hproduct hb) (Nat.mul_one _).symm)
  rw [hproduct, Nat.one_mul, Nat.one_mul] at hnear
  have hstep : 2 ^ (i + 1 + k) < 2 * (2 ^ k * d) := by
    rw [Nat.add_right_comm, Nat.pow_succ', Nat.pow_add, Nat.mul_comm (2 ^ i)]
    exact Nat.mul_lt_mul_of_pos_left (Nat.mul_lt_mul_of_pos_left h.two_pow_lt (Nat.two_pow_pos k))
      (by decide)
  -- the magnitude lies on the grid of the quotients: those below it have products too far off
  have hgreat : 2 ^ (24 + k) ≤ units := by
    refine Nat.le_of_not_lt fun hlt => ?_
    have hgap := add_two_pow_le_of_representable hu hlt
    have hgap' := Nat.mul_le_mul_right d hgap
    rw [Nat.add_mul] at hgap'
    have hbound : 2 ^ (24 + k) * d ≤ b * 2 ^ (i + 1 + k) :=
      calc 2 ^ (24 + k) * d = 2 ^ 24 * d * 2 ^ k := by rw [Nat.pow_add, Nat.mul_right_comm]
        _ ≤ b * 2 ^ (i + 1) * 2 ^ k := Nat.mul_le_mul_right _ hcoarse
        _ = b * 2 ^ (i + 1 + k) := by rw [Nat.mul_assoc, ← Nat.pow_add]
    omega
  obtain ⟨a, rfl⟩ : 2 ^ (k + 1) ∣ units :=
    two_pow_dvd_of_representable hu (by rwa [show 23 + (k + 1) = 24 + k by omega])
  have hquotient : 2 ^ 23 * d ≤ b * 2 ^ i ∧ b * 2 ^ i < 2 ^ 24 * d := by
    have hpow : 2 ^ (i + 1) = 2 * 2 ^ i := Nat.pow_succ'
    rw [hpow, Nat.mul_left_comm] at hcoarse
    exact ⟨by omega, Nat.mul_lt_mul_of_lt_of_le hb (Nat.le_of_lt h.two_pow_lt) h.pos⟩
  -- its product is less than half a divisor off, so it is the quotient
  have hround : halfEven (b * 2 ^ i) d = a := by
    have hscale : 2 ^ (i + 1 + k) = 2 ^ (k + 1) * 2 ^ i := by rw [← Nat.pow_add]; congr 1; omega
    have hnear' : 2 ^ (k + 1) * (2 * (b * 2 ^ i)) ≤ 2 ^ (k + 1) * (2 * (a * d) + 2 ^ i) ∧
        2 ^ (k + 1) * (2 * (a * d)) ≤ 2 ^ (k + 1) * (2 * (b * 2 ^ i) + 2 ^ i) := by
      rw [hscale, Nat.mul_left_comm b, Nat.mul_assoc] at hnear
      simp only [Nat.mul_add, Nat.mul_left_comm _ 2]
      exact hnear
    simp only [Nat.mul_le_mul_left_iff (Nat.two_pow_pos _), Nat.mul_comm a] at hnear'
    have hlt := h.two_pow_lt
    exact halfEven_eq (by omega) (by omega)
  rw [show i + 1 + k = i + (k + 1) by omega, roundUnits_quotient hquotient, hround, Nat.mul_comm]

/-- A rounded product comes back. -/
theorem rescaled_of_product (h : Scales d i) (hu : Representable units) (hlow : 2 ^ 23 ≤ b)
    (hb : b < 2 ^ 24) (he : 7 ≤ e) (hproduct : roundUnits (units * d) 1 = b * 2 ^ e) :
    rescaled d (b * 2 ^ e) = b * 2 ^ e := by
  have hi := h.le_six
  by_cases hfine : b * 2 ^ (i + 1) < 2 ^ 24 * d
  · exact rescaled_of_fine h hlow hfine (by omega)
  · rw [rescaled, roundUnits_of_product h hu hb (by omega) (by omega) hproduct, hproduct]

/-- A magnitude from `2 ^ 23` places of a grid on has its significand on that grid or a coarser one.
-/
theorem exists_significand {j : Nat} (hu : Representable units) (hle : 2 ^ (23 + j) ≤ units) :
    ∃ b e, j ≤ e ∧ 2 ^ 23 ≤ b ∧ b < 2 ^ 24 ∧ units = b * 2 ^ e := by
  have hpos := Nat.two_pow_pos (23 + j)
  have hlog : 23 + j ≤ units.log2 := (Nat.le_log2 (by omega)).2 hle
  obtain ⟨e, he⟩ := Nat.exists_eq_add_of_le (Nat.le_trans (Nat.le_add_right 23 j) hlog)
  have hlow := Nat.log2_self_le (n := units) (by omega)
  have hhigh := @Nat.lt_log2_self units
  obtain ⟨b, hb⟩ := hu.2
  rw [spacing, he, Nat.add_sub_cancel_left, Nat.mul_comm] at hb
  rw [he, hb, Nat.pow_add] at hlow
  rw [he, hb, Nat.add_right_comm, Nat.pow_add] at hhigh
  exact ⟨b, e, by omega, Nat.le_of_mul_le_mul_right hlow (Nat.two_pow_pos e),
    Nat.lt_of_mul_lt_mul_right hhigh, hb⟩

/-- From `2 ^ 23` on, a number that is written is written again when it has been read. -/
theorem rewritten_written_of_large (h : Scales d i) (hu : Representable units)
    (hproduct : Representable (roundUnits (units * d) 1)) (hlarge : 2 ^ 23 ≤ written d units) :
    rewritten d (written d units) = written d units := by
  by_cases hsmall : roundUnits (units * d) 1 < 2 ^ 23 * one
  · -- the product is rounded up to `2 ^ 23`
    have hpos := pos_one
    have hle : written d units ≤ 2 ^ 23 := by
      refine Nat.le_of_lt_succ ((Nat.div_lt_iff_lt_mul (by omega)).2 ?_)
      omega
    rw [show written d units = 2 ^ 23 by omega]
    exact rewritten_two_pow h
  · have hle : 2 ^ (23 + 149) ≤ roundUnits (units * d) 1 := by
      rw [Nat.pow_add]
      exact Nat.le_of_not_lt hsmall
    obtain ⟨b, e, he, hlow, hb, heq⟩ := exists_significand hproduct hle
    have hwritten : written d units = b * 2 ^ (e - 149) := by
      rw [written, heq, mul_two_pow_eq b he, Rounding.halfUp_mul_right _ pos_one]
    have hwhole : whole (b * 2 ^ (e - 149)) = b * 2 ^ e := by
      rw [whole, ← mul_two_pow_eq b he, ← heq]
      exact roundUnits_of_representable hproduct
    rw [hwritten]
    exact rewritten_eq_of_le he hwhole (rescaled_of_product h hu hlow hb (by omega) heq)

/-- A number that is written is written again when it has been read, unless it drifts. -/
theorem rewritten_written (h : Scales d i) (hu : Representable units)
    (hproduct : Representable (roundUnits (units * d) 1)) :
    rewritten d (written d units)
      = if Drifts d (written d units) then written d units + 1 else written d units := by
  by_cases hsmall : written d units < 2 ^ 22
  · rw [if_neg (not_drifts_of_lt hsmall), rewritten_of_le h.pos h.le_two_pow (Nat.le_of_lt hsmall)]
  by_cases hmiddle : written d units < 2 ^ 23
  · exact rewritten_of_middle h (by omega) hmiddle
  · rw [if_neg (not_drifts_of_le (by omega)),
      rewritten_written_of_large h hu hproduct (by omega)]

end ChannelPreset.Magnitude
