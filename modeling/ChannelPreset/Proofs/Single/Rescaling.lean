import ChannelPreset.Proofs.Single.Grid

/-!
# Dividing and Multiplying Back

A magnitude that is divided by ten or a hundred and multiplied by it again, with a rounding after
each, need not come back. Whether it does depends on the grid that the quotient lies on.

* `rescaled_of_fine`: on a finer grid than its own the magnitude comes back;
* `rescaled_of_coarse`: on a coarser grid it comes back up to one unit of its last place
  (`near_resettled`), and what comes back has the same quotient (`resettled_resettled`).

So going forth and back once more changes nothing (`exists_rescaled`).
-/

namespace ChannelPreset.Magnitude

open Rounding (halfEven halfEven_near halfEven_halfEven)

/-- A divisor of stored numbers, and the exponent of the greatest power of two below it. -/
def Scales (d i : Nat) : Prop :=
  d = 10 ∧ i = 3 ∨ d = 100 ∧ i = 6

/-- A significand that is divided on a grid `2 ^ i` times finer than its own and multiplied back. -/
def resettled (d i significand : Nat) : Nat :=
  halfEven (halfEven (significand * 2 ^ i) d * d) (2 ^ i)

/-- A magnitude that is divided and multiplied back, in units. -/
def rescaled (d units : Nat) : Nat :=
  roundUnits (roundUnits units d * d) 1

variable {d i : Nat}

theorem Scales.pos (h : Scales d i) : 0 < d := by
  rcases h with ⟨rfl, rfl⟩ | ⟨rfl, rfl⟩ <;> decide

theorem Scales.two_pow_lt (h : Scales d i) : 2 ^ i < d := by
  rcases h with ⟨rfl, rfl⟩ | ⟨rfl, rfl⟩ <;> decide

theorem Scales.lt_two_pow (h : Scales d i) : d < 2 ^ (i + 1) := by
  rcases h with ⟨rfl, rfl⟩ | ⟨rfl, rfl⟩ <;> decide

theorem Scales.le_six (h : Scales d i) : i ≤ 6 := by
  rcases h with ⟨rfl, rfl⟩ | ⟨rfl, rfl⟩ <;> decide

theorem Scales.le_two_pow (h : Scales d i) : d ≤ 2 ^ 24 := by
  rcases h with ⟨rfl, rfl⟩ | ⟨rfl, rfl⟩ <;> decide

/-! ## The grids of the quotient and the product -/

/-- The quotient of a magnitude, when it is known to lie on the grid `2 ^ k`. -/
theorem roundUnits_quotient {a : Nat} (h : 2 ^ 23 * d ≤ a * 2 ^ i ∧ a * 2 ^ i < 2 ^ 24 * d)
    (k : Nat) : roundUnits (a * 2 ^ (i + k)) d = halfEven (a * 2 ^ i) d * 2 ^ k := by
  have hround := @roundUnits_mul_two_pow (a * 2 ^ i) d 0 (by simpa using h.1) (by simpa using h.2) k
  rwa [Nat.pow_zero, Nat.mul_one, Nat.zero_add, Nat.mul_assoc, ← Nat.pow_add] at hround

/-- The significand that comes back, when the quotient and the product are known to lie on the grids
of `resettled`. -/
theorem rescaled_eq {a : Nat} (hquotient : 2 ^ 23 * d ≤ a * 2 ^ i ∧ a * 2 ^ i < 2 ^ 24 * d)
    (hproduct : 2 ^ 23 * 2 ^ i ≤ halfEven (a * 2 ^ i) d * d ∧
      halfEven (a * 2 ^ i) d * d < 2 ^ 24 * 2 ^ i) {e : Nat} (he : i ≤ e) :
    rescaled d (a * 2 ^ e) = resettled d i a * 2 ^ e := by
  obtain ⟨k, rfl⟩ := Nat.exists_eq_add_of_le he
  -- the quotient has 24 bits in front of the grid `2 ^ k`, the product in front of `2 ^ (i + k)`
  have hmultiply := @roundUnits_mul_two_pow _ 1 i (by simpa using hproduct.1)
    (by simpa using hproduct.2) k
  rw [Nat.one_mul] at hmultiply
  rw [rescaled, roundUnits_quotient hquotient, Nat.mul_right_comm, hmultiply, resettled]

/-- Where the quotients are finer than the magnitudes, a magnitude comes back. -/
theorem rescaled_of_fine (h : Scales d i) {a : Nat} (hlow : 2 ^ 23 ≤ a)
    (hfine : a * 2 ^ (i + 1) < 2 ^ 24 * d) {e : Nat} (he : i + 1 ≤ e) :
    rescaled d (a * 2 ^ e) = a * 2 ^ e := by
  by_cases hbinade : d = 100 ∧ a = 2 ^ 23
  · -- the product is rounded down past the power of two, and found again on the grid below it
    obtain ⟨rfl, rfl⟩ := hbinade
    obtain ⟨-, rfl⟩ : 100 = 100 ∧ i = 6 := by
      rcases h with ⟨h10, -⟩ | h100
      · cases h10
      · exact h100
    obtain ⟨k, rfl⟩ := Nat.exists_eq_add_of_le he
    rw [Nat.add_right_comm 6, ← carry]
    exact @rescaled_eq 100 6 (2 ^ 24) (by decide) (by decide) (6 + k) (by omega)
  · -- elsewhere the product stays on the grid of the magnitude
    have hkept : resettled d (i + 1) a = a := halfEven_halfEven h.pos h.lt_two_pow a
    have hnear := halfEven_near (a * 2 ^ (i + 1)) h.pos
    have hback : rescaled d (a * 2 ^ e) = resettled d (i + 1) a * 2 ^ e := by
      refine rescaled_eq ⟨?_, hfine⟩ ?_ he
      · rcases h with ⟨rfl, rfl⟩ | ⟨rfl, rfl⟩ <;> omega
      · generalize halfEven (a * 2 ^ (i + 1)) d = q at hnear
        rcases h with ⟨rfl, rfl⟩ | ⟨rfl, rfl⟩ <;> omega
    rw [hback, hkept]

/-- Where the quotients are coarser than the magnitudes, a magnitude comes back resettled. -/
theorem rescaled_of_coarse (h : Scales d i) {a : Nat} (hcoarse : 2 ^ 24 * d ≤ a * 2 ^ (i + 1))
    (hhigh : a < 2 ^ 24) {e : Nat} (he : i ≤ e) :
    rescaled d (a * 2 ^ e) = resettled d i a * 2 ^ e := by
  have hnear := halfEven_near (a * 2 ^ i) h.pos
  refine rescaled_eq ⟨?_, ?_⟩ ?_ he
  · rcases h with ⟨rfl, rfl⟩ | ⟨rfl, rfl⟩ <;> omega
  · rcases h with ⟨rfl, rfl⟩ | ⟨rfl, rfl⟩ <;> omega
  · generalize halfEven (a * 2 ^ i) d = q at hnear
    rcases h with ⟨rfl, rfl⟩ | ⟨rfl, rfl⟩ <;> omega

/-! ## What comes back -/

/-- What comes back is resettled to itself, since its quotient is the same. -/
theorem resettled_resettled (h : Scales d i) (a : Nat) :
    resettled d i (resettled d i a) = resettled d i a := by
  -- the product lies on a finer grid than the quotient, so the quotient is found again
  have hquotient : halfEven (resettled d i a * 2 ^ i) d = halfEven (a * 2 ^ i) d :=
    halfEven_halfEven (Nat.two_pow_pos i) h.two_pow_lt _
  rw [resettled, hquotient]
  rfl

/-- Resettling repeats itself: `c` is the length of a period for which the quotients, on their grid,
come out even. -/
theorem resettled_add {c k : Nat} (hd : 0 < d) (hc : c * 2 ^ i = k * d) (a : Nat) :
    resettled d i (a + 2 * c) = resettled d i a + 2 * c := by
  have hperiod : 2 * c * 2 ^ i = 2 * k * d := by rw [Nat.mul_assoc, hc, ← Nat.mul_assoc]
  have hquotient : halfEven ((a + 2 * c) * 2 ^ i) d = halfEven (a * 2 ^ i) d + 2 * k := by
    rw [Nat.add_mul, hperiod, Rounding.halfEven_add_mul _ _ hd]
  rw [resettled, hquotient, Nat.add_mul, ← hperiod,
    Rounding.halfEven_add_mul _ _ (Nat.two_pow_pos i), ← resettled]

/-- A resettled significand differs by one unit at most. -/
theorem near_resettled (h : Scales d i) (a : Nat) :
    a ≤ resettled d i a + 1 ∧ resettled d i a ≤ a + 1 := by
  have hquotient := halfEven_near (a * 2 ^ i) h.pos
  have hproduct := halfEven_near (halfEven (a * 2 ^ i) d * d) (Nat.two_pow_pos i)
  unfold resettled
  generalize halfEven (a * 2 ^ i) d = q at *
  generalize halfEven (q * d) (2 ^ i) = b at *
  rcases h with ⟨rfl, rfl⟩ | ⟨rfl, rfl⟩ <;> omega

/-- A resettled significand has the coarse quotients too. -/
theorem coarse_resettled (h : Scales d i) {a : Nat} (hcoarse : 2 ^ 24 * d ≤ a * 2 ^ (i + 1)) :
    2 ^ 24 * d ≤ resettled d i a * 2 ^ (i + 1) := by
  have hquotient := halfEven_near (a * 2 ^ i) h.pos
  have hproduct := halfEven_near (halfEven (a * 2 ^ i) d * d) (Nat.two_pow_pos i)
  unfold resettled
  generalize halfEven (a * 2 ^ i) d = q at *
  generalize halfEven (q * d) (2 ^ i) = b at *
  rcases h with ⟨rfl, rfl⟩ | ⟨rfl, rfl⟩ <;> omega

/-- A magnitude comes back up to one unit of its last place, and what comes back comes back as it
is. -/
theorem exists_rescaled (h : Scales d i) {a : Nat} (hlow : 2 ^ 23 ≤ a) (hhigh : a < 2 ^ 24) {e : Nat}
    (he : 7 ≤ e) :
    ∃ b, rescaled d (a * 2 ^ e) = b * 2 ^ e ∧ rescaled d (b * 2 ^ e) = b * 2 ^ e ∧
      (a ≤ b + 1 ∧ b ≤ a + 1) ∧ 2 ^ 23 ≤ b ∧ b ≤ 2 ^ 24 := by
  have hi := h.le_six
  by_cases hfine : a * 2 ^ (i + 1) < 2 ^ 24 * d
  · have hback := rescaled_of_fine h hlow hfine (by omega : i + 1 ≤ e)
    exact ⟨a, hback, hback, ⟨by omega, by omega⟩, hlow, by omega⟩
  · have hcoarse : 2 ^ 24 * d ≤ a * 2 ^ (i + 1) := by omega
    have hnear := near_resettled h a
    have hback := rescaled_of_coarse h hcoarse hhigh (by omega : i ≤ e)
    have hlow' : 2 ^ 23 ≤ resettled d i a := by
      have := coarse_resettled h hcoarse
      rcases h with ⟨rfl, rfl⟩ | ⟨rfl, rfl⟩ <;> omega
    refine ⟨resettled d i a, hback, ?_, hnear, hlow', by omega⟩
    by_cases hcarry : resettled d i a < 2 ^ 24
    · rw [rescaled_of_coarse h (coarse_resettled h hcoarse) hcarry (by omega),
        resettled_resettled h]
    · -- the significand has been rounded up to the next power of two, whose quotients are fine
      rw [show resettled d i a = 2 ^ 24 by omega, carry]
      refine rescaled_of_fine h (Nat.le_refl _) ?_ (by omega)
      have := h.two_pow_lt
      rw [Nat.pow_succ]
      omega

end ChannelPreset.Magnitude
