import ChannelPreset.Single.Basic

/-!
# Rounding on a Grid

`Rounding.halfEven` is determined by how near it is: it is never farther than half the divisor
(`Rounding.halfEven_near`), and what is nearer than that is the result (`Rounding.halfEven_eq`). So
a grid that is finer than another loses nothing of it (`Rounding.halfEven_halfEven`).

`Magnitude.roundUnits_mul_two_pow` gives a rounded magnitude by its significand, with the grid of
the result named in place of found by a logarithm. How near a rounded magnitude is can be said
without its grid: half of a power of two (`Magnitude.roundUnits_near_of_lt`), or one part in `2 ^ 24`
(`Magnitude.roundUnits_near_of_le`).
-/

namespace ChannelPreset

namespace Rounding

/-- Rounding goes no farther than half the divisor. -/
theorem halfEven_near (n : Nat) {d : Nat} (hd : 0 < d) :
    2 * (d * halfEven n d) ≤ 2 * n + d ∧ 2 * n ≤ 2 * (d * halfEven n d) + d := by
  have hn := Nat.div_add_mod n d
  have hr := Nat.mod_lt n hd
  have hodd : n / d % 2 ≤ 1 := by omega
  -- the remainder is below half the divisor, above it, or half of it
  unfold halfEven
  split
  · omega
  split
  · rw [Nat.mul_add]
    omega
  · -- at a half both neighbours are equally near
    rcases Nat.le_one_iff_eq_zero_or_eq_one.1 hodd with h | h <;> rw [h, Nat.mul_add] <;> omega

/-- Rounding does not pass a bound that is a multiple of the divisor. -/
theorem halfEven_le_of_le {n d q : Nat} (hd : 0 < d) (h : n ≤ q * d) : halfEven n d ≤ q := by
  have hnear := (halfEven_near n hd).1
  refine Nat.le_of_lt_succ (Nat.lt_of_mul_lt_mul_left (a := d) ?_)
  rw [Nat.mul_succ, Nat.mul_comm d q]
  omega

/-- What is as far as half the divisor is even. -/
theorem halfEven_even {n d : Nat} (hd : 0 < d)
    (h : 2 * (d * halfEven n d) = 2 * n + d ∨ 2 * n = 2 * (d * halfEven n d) + d) :
    halfEven n d % 2 = 0 := by
  have hn := Nat.div_add_mod n d
  have hr := Nat.mod_lt n hd
  unfold halfEven at h ⊢
  split
  · rename_i hlt
    rw [if_pos hlt] at h
    omega
  split
  · rename_i hge hlt
    rw [if_neg hge, if_pos hlt, Nat.mul_add] at h
    omega
  · omega

/-- What is nearer than half the divisor is the rounded quotient. -/
theorem halfEven_eq {n d q : Nat} (hlow : 2 * n < 2 * (d * q) + d)
    (hhigh : 2 * (d * q) < 2 * n + d) : halfEven n d = q := by
  have hn := Nat.div_add_mod n d
  have hr := Nat.mod_lt n (show 0 < d by omega)
  -- only the two neighbours of the quotient are that near
  have hq : q = n / d ∨ q = n / d + 1 := by
    have hge : n / d < q + 1 := by
      refine Nat.lt_of_mul_lt_mul_left (a := d) ?_
      rw [Nat.mul_add]
      omega
    have hle : q < n / d + 2 := by
      refine Nat.lt_of_mul_lt_mul_left (a := d) ?_
      rw [Nat.mul_add]
      omega
    omega
  unfold halfEven
  rcases hq with rfl | rfl
  · rw [if_pos (by omega)]
  · rw [Nat.mul_add] at hlow hhigh
    rw [if_neg (by omega), if_pos (by omega)]

/-- A common factor of dividend and divisor makes no difference. -/
theorem halfEven_mul_mul (n d : Nat) {k : Nat} (hk : 0 < k) :
    halfEven (n * k) (d * k) = halfEven n d := by
  unfold halfEven
  rw [Nat.mul_mod_mul_right, Nat.mul_div_mul_right n d hk, ← Nat.mul_assoc]
  simp only [Nat.mul_lt_mul_right hk]

/-- A multiple of the coarser divisor is found again after rounding on the finer grid. -/
theorem halfEven_halfEven {c d : Nat} (hc : 0 < c) (hcd : c < d) (q : Nat) :
    halfEven (halfEven (q * d) c * c) d = q := by
  obtain ⟨hlow, hhigh⟩ := halfEven_near (q * d) hc
  rw [Nat.mul_comm c] at hlow hhigh
  refine halfEven_eq ?_ ?_ <;> rw [Nat.mul_comm d q] <;> omega

/-- An even number of divisors more is as many more, since they do not turn a half to the other
neighbour. -/
theorem halfEven_add_mul (n k : Nat) {d : Nat} (hd : 0 < d) :
    halfEven (n + 2 * k * d) d = halfEven n d + 2 * k := by
  have heven : (n / d + 2 * k) % 2 = n / d % 2 := by omega
  unfold halfEven
  rw [Nat.add_mul_mod_self_right, Nat.add_mul_div_right _ _ hd, heven]
  split
  · rfl
  · split <;> omega

theorem halfUp_eq {n d q : Nat} (hlow : 2 * (d * q) ≤ 2 * n + d)
    (hhigh : 2 * n < 2 * (d * q) + d) : halfUp n d = q := by
  rw [halfUp, Nat.div_eq_iff (by omega), Nat.mul_left_comm, Nat.mul_comm q]
  omega

theorem halfUp_add_mul (n k : Nat) {d : Nat} (hd : 0 < d) :
    halfUp (n + k * d) d = halfUp n d + k := by
  have hsplit : 2 * (n + k * d) + d = 2 * n + d + k * (2 * d) := by
    rw [Nat.mul_add, Nat.mul_left_comm 2 k d]
    omega
  rw [halfUp, hsplit, Nat.add_mul_div_right _ _ (by omega), ← halfUp]

theorem halfUp_mul_mul (n d : Nat) {k : Nat} (hk : 0 < k) :
    halfUp (n * k) (d * k) = halfUp n d := by
  rw [halfUp, halfUp, ← Nat.mul_assoc, ← Nat.mul_assoc, ← Nat.add_mul,
    Nat.mul_div_mul_right _ _ hk]

end Rounding

namespace Magnitude

open Rounding (halfEven halfEven_near halfEven_eq halfEven_le_of_le halfEven_mul_mul
  halfEven_mul_right)

/-- A significand of 25 bits is the least of 24 bits on the next grid. -/
theorem carry (e : Nat) : 2 ^ 24 * 2 ^ e = 2 ^ 23 * 2 ^ (e + 1) := by
  rw [← Nat.pow_add, ← Nat.pow_add, Nat.add_comm e 1, ← Nat.add_assoc]

/-- The spacing is known as soon as a quotient is known to have 24 bits in front of it. -/
theorem spacing_div_eq {n d i : Nat} (hlow : 2 ^ 23 * (d * 2 ^ i) ≤ n)
    (hhigh : n < 2 ^ 24 * (d * 2 ^ i)) : spacing (n / d) = 2 ^ i := by
  have hd : 0 < d := by
    rcases Nat.eq_zero_or_pos d with rfl | hd
    · simp at hhigh
    · exact hd
  -- the two bounds say which bit of the quotient is its highest
  have hlow' : 2 ^ (23 + i) ≤ n / d := by
    rw [Nat.le_div_iff_mul_le hd, Nat.pow_add, Nat.mul_assoc, Nat.mul_comm _ d]
    exact hlow
  have hhigh' : n / d < 2 ^ (23 + i + 1) := by
    rw [Nat.div_lt_iff_lt_mul hd, show 23 + i + 1 = 24 + i by omega, Nat.pow_add, Nat.mul_assoc,
      Nat.mul_comm _ d]
    exact hhigh
  have hpos : n / d ≠ 0 := by
    have := Nat.two_pow_pos (23 + i)
    omega
  have hlog : (n / d).log2 = 23 + i := (Nat.log2_eq_iff hpos).2 ⟨hlow', hhigh'⟩
  rw [spacing, hlog, Nat.add_sub_cancel_left]

/-- A rounded quotient whose significand has 24 bits on a named grid. -/
theorem roundUnits_mul_two_pow {n d i : Nat} (hlow : 2 ^ 23 * (d * 2 ^ i) ≤ n)
    (hhigh : n < 2 ^ 24 * (d * 2 ^ i)) (k : Nat) :
    roundUnits (n * 2 ^ k) d = halfEven n (d * 2 ^ i) * 2 ^ (i + k) := by
  have hk := Nat.two_pow_pos k
  -- the factor `2 ^ k` moves the dividend and the grid alike
  have hstep : d * 2 ^ (i + k) = d * 2 ^ i * 2 ^ k := by rw [Nat.pow_add, Nat.mul_assoc]
  have hspacing : spacing (n * 2 ^ k / d) = 2 ^ (i + k) := by
    refine spacing_div_eq ?_ ?_ <;> rw [hstep, ← Nat.mul_assoc]
    · exact Nat.mul_le_mul_right _ hlow
    · exact Nat.mul_lt_mul_of_pos_right hhigh hk
  rw [roundUnits, hspacing]
  show halfEven _ _ * _ = _
  rw [hstep, halfEven_mul_mul n _ hk]

/-- A significand of 24 bits, or the next power of two, is not rounded. -/
theorem roundUnits_significand {a : Nat} (hlow : 2 ^ 23 ≤ a) (hhigh : a ≤ 2 ^ 24) (e : Nat) :
    roundUnits (a * 2 ^ e) 1 = a * 2 ^ e := by
  have hround : ∀ {a : Nat}, 2 ^ 23 ≤ a → a < 2 ^ 24 → ∀ e, roundUnits (a * 2 ^ e) 1 = a * 2 ^ e := by
    intro a hlow hhigh e
    have h := @roundUnits_mul_two_pow a 1 0 (by simpa using hlow) (by simpa using hhigh) e
    have hself : halfEven a 1 = a := halfEven_eq (by omega) (by omega)
    rwa [Nat.pow_zero, Nat.mul_one, Nat.zero_add, hself] at h
  by_cases hcarry : a < 2 ^ 24
  · exact hround hlow hcarry e
  · rw [show a = 2 ^ 24 by omega, carry]
    exact hround (Nat.le_refl _) (by decide) (e + 1)

/-- A magnitude is not rounded. -/
theorem roundUnits_of_representable {units : Nat} (h : Representable units) :
    roundUnits units 1 = units := by
  obtain ⟨k, hk⟩ := h.2
  have hround : halfEven units (spacing units) = k := by
    have hmul := halfEven_mul_right k (Nat.two_pow_pos (units.log2 - 23))
    rwa [Nat.mul_comm k, ← spacing, ← hk] at hmul
  rw [roundUnits, Nat.div_one, Nat.one_mul]
  show halfEven units (spacing units) * spacing units = units
  rw [hround, Nat.mul_comm, ← hk]

/-- The places of a magnitude are as coarse as it is great. -/
theorem two_pow_dvd_of_representable {units e : Nat} (h : Representable units)
    (hle : 2 ^ (23 + e) ≤ units) : 2 ^ e ∣ units := by
  have hpos := Nat.two_pow_pos (23 + e)
  have hlog : 23 + e ≤ units.log2 := (Nat.le_log2 (by omega)).2 hle
  exact Nat.dvd_trans (Nat.pow_dvd_pow 2 (by omega)) h.2

/-- Below a power of two there is a gap as wide as the places of the magnitudes in front of it. -/
theorem add_two_pow_le_of_representable {units e : Nat} (h : Representable units)
    (hlt : units < 2 ^ (24 + e)) : units + 2 ^ e ≤ 2 ^ (24 + e) := by
  have hhalf : 2 ^ (24 + e) = 2 * 2 ^ (23 + e) := by
    rw [← Nat.pow_succ', show 24 + e = 23 + e + 1 by omega]
  have hstep : 2 ^ e ≤ 2 ^ (23 + e) := Nat.pow_le_pow_right (by decide) (by omega)
  by_cases hle : 2 ^ (23 + e) ≤ units
  · -- the magnitude and the power of two lie on one grid
    obtain ⟨k, rfl⟩ := two_pow_dvd_of_representable h hle
    rw [Nat.pow_add, Nat.mul_comm (2 ^ 24)] at hlt ⊢
    rw [← Nat.mul_succ]
    exact Nat.mul_le_mul_left _ (Nat.lt_of_mul_lt_mul_left hlt)
  · omega

/-- A common factor of numerator and denominator makes no difference. -/
theorem roundUnits_mul_mul (n d : Nat) {k : Nat} (hk : 0 < k) :
    roundUnits (n * k) (d * k) = roundUnits n d := by
  simp only [roundUnits]
  rw [Nat.mul_div_mul_right n d hk, Nat.mul_right_comm, halfEven_mul_mul n _ hk]

/-- Rounding does not pass a power of two. -/
theorem roundUnits_le {n d b : Nat} (hd : 0 < d) (h : n ≤ 2 ^ b * d) : roundUnits n d ≤ 2 ^ b := by
  have hdiv : n / d ≤ 2 ^ b := Nat.div_le_of_le_mul (Nat.mul_comm d _ ▸ h)
  have hlog : (n / d).log2 ≤ b := by
    rcases Nat.eq_zero_or_pos (n / d) with h0 | hpos
    · rw [h0, Nat.log2_zero]
      exact Nat.zero_le b
    · exact (Nat.pow_le_pow_iff_right (by decide : 1 < 2)).1
        (Nat.le_trans (Nat.log2_self_le (Nat.ne_of_gt hpos)) hdiv)
  -- the power of two lies on the grid of the result
  obtain ⟨j, hj⟩ := Nat.exists_eq_add_of_le (show (n / d).log2 - 23 ≤ b by omega)
  have hgrid : 2 ^ b = 2 ^ j * spacing (n / d) := by
    rw [spacing, ← Nat.pow_add, Nat.add_comm j, ← hj]
  rw [roundUnits, hgrid]
  refine Nat.mul_le_mul_right _ (halfEven_le_of_le (Nat.mul_pos hd (Nat.two_pow_pos _)) ?_)
  rw [Nat.mul_left_comm, ← hgrid, Nat.mul_comm d]
  exact h

/-! ## How near a rounded magnitude is -/

theorem spacing_pos (units : Nat) : 0 < spacing units := Nat.two_pow_pos _

theorem roundUnits_zero {d : Nat} (hd : 0 < d) : roundUnits 0 d = 0 := by
  simp [roundUnits, spacing, halfEven, hd]

theorem mul_roundUnits (n d : Nat) :
    d * roundUnits n d = d * spacing (n / d) * halfEven n (d * spacing (n / d)) := by
  rw [roundUnits, Nat.mul_assoc, Nat.mul_comm (halfEven _ _)]

/-- Rounding goes no farther than half the distance between the magnitudes around the quotient. -/
theorem roundUnits_near (n : Nat) {d : Nat} (hd : 0 < d) :
    2 * (d * roundUnits n d) ≤ 2 * n + d * spacing (n / d) ∧
      2 * n ≤ 2 * (d * roundUnits n d) + d * spacing (n / d) := by
  rw [mul_roundUnits]
  exact halfEven_near n (Nat.mul_pos hd (spacing_pos _))

/-- A quotient of at most `b + 24` bits is rounded by half of `2 ^ b` at most. -/
theorem roundUnits_near_of_lt {n d b : Nat} (hd : 0 < d) (h : n < 2 ^ (b + 24) * d) :
    2 * (d * roundUnits n d) ≤ 2 * n + d * 2 ^ b ∧
      2 * n ≤ 2 * (d * roundUnits n d) + d * 2 ^ b := by
  have hspacing : spacing (n / d) ≤ 2 ^ b := by
    refine Nat.pow_le_pow_right (by decide) ?_
    rcases Nat.eq_zero_or_pos (n / d) with h0 | hpos
    · rw [h0, Nat.log2_zero]
      omega
    · have hlog : (n / d).log2 < b + 24 :=
        (Nat.log2_lt (Nat.ne_of_gt hpos)).2 ((Nat.div_lt_iff_lt_mul hd).2 h)
      omega
  have hstep : d * spacing (n / d) ≤ d * 2 ^ b := Nat.mul_le_mul_left d hspacing
  have hnear := roundUnits_near n hd
  omega

/-- A quotient of at least 24 bits is rounded by less than one part in `2 ^ 24`. -/
theorem roundUnits_near_of_le {n d : Nat} (hd : 0 < d) (h : 2 ^ 23 * d ≤ n) :
    2 ^ 24 * (d * roundUnits n d) < 2 ^ 24 * n + n ∧
      2 ^ 24 * n < 2 ^ 24 * (d * roundUnits n d) + n := by
  -- the significand of the quotient has 24 bits, so the spacing is a part in `2 ^ 23` at most
  have hquotient : 2 ^ 23 ≤ n / d := (Nat.le_div_iff_mul_le hd).2 h
  have hlog : 23 ≤ (n / d).log2 := (Nat.le_log2 (by omega)).2 hquotient
  have hspacing : 2 ^ 23 * spacing (n / d) ≤ n / d := by
    rw [spacing, ← Nat.pow_add, Nat.add_sub_cancel' hlog]
    exact Nat.log2_self_le (by omega)
  have hstep : 2 ^ 23 * (d * spacing (n / d)) ≤ n := by
    rw [Nat.mul_left_comm]
    exact Nat.le_trans (Nat.mul_le_mul_left d hspacing) (Nat.mul_div_le n d)
  by_cases hpower : 2 ^ 23 * (d * spacing (n / d)) = n
  · -- only the least significand could be rounded by a whole part, and it is not rounded at all
    have hself : halfEven n (d * spacing (n / d)) = 2 ^ 23 := by
      have hmul := halfEven_mul_right (2 ^ 23) (Nat.mul_pos hd (spacing_pos (n / d)))
      rwa [hpower] at hmul
    rw [mul_roundUnits, hself, Nat.mul_comm (d * _), hpower]
    omega
  · have hnear := roundUnits_near n hd
    omega

end Magnitude

end ChannelPreset
