import ChannelPreset.Power

/-!
# Rounding a Quotient

The two ways a quotient of natural numbers is brought to an integer here. Both pick the nearest
integer; they differ in what they do with a quotient that lies halfway between two.
-/

namespace ChannelPreset.Rounding

/-- The integer nearest to `n / d`; a half goes to the even neighbour. -/
def halfEven (n d : Nat) : Nat :=
  if 2 * (n % d) < d then n / d
  else if d < 2 * (n % d) then n / d + 1
  else n / d + n / d % 2

/-- The integer nearest to `n / d`; a half goes up. -/
def halfUp (n d : Nat) : Nat :=
  (2 * n + d) / (2 * d)

theorem le_halfEven (n d : Nat) : n / d ≤ halfEven n d := by
  unfold halfEven
  split
  · exact Nat.le_refl _
  · split <;> omega

theorem halfEven_le (n d : Nat) : halfEven n d ≤ n / d + 1 := by
  unfold halfEven
  split
  · omega
  · split <;> omega

/-- A multiple of the divisor is not changed by rounding. -/
@[simp]
theorem halfEven_mul_right (n : Nat) {d : Nat} (h : 0 < d) : halfEven (n * d) d = n := by
  simp [halfEven, Nat.mul_div_cancel _ h, h]

@[simp]
theorem halfUp_mul_right (n : Nat) {d : Nat} (h : 0 < d) : halfUp (n * d) d = n := by
  have e : 2 * (n * d) + d = d + 2 * d * n := by
    rw [Nat.add_comm, ← Nat.mul_assoc, Nat.mul_right_comm]
  rw [halfUp, e, Nat.add_mul_div_left _ _ (by omega), Nat.div_eq_of_lt (by omega), Nat.zero_add]

end ChannelPreset.Rounding
