import ChannelPreset.Proofs.Single.Rescaling

/-!
# Whole Numbers Read as Parts

A whole number that is read as so many tenths or hundredths, and written again, need not be the same
number (`Magnitude.rewritten`), but it is the same from the second time on
(`Magnitude.rewritten_rewritten`). How far the number is from `2 ^ 22` decides why:

* up to `2 ^ 22` the two roundings together go less than a half, so the number itself is written,
  not only where it is read as tenths or hundredths (`Magnitude.rewritten_of_le`);
* from `2 ^ 23` on every magnitude is a whole number, and what has come back once comes back;
* in between the places are halves, and what becomes of a number repeats itself: it is written as
  the next number in four places out of 25 of the upper hundredths (`Magnitude.Drifts`), and as
  itself everywhere else (`Magnitude.rewritten_of_middle`).
-/

namespace ChannelPreset.Magnitude

open Rounding (halfEven halfEven_near halfEven_eq halfUp halfUp_eq halfUp_mul_mul)

/-- The units of the magnitude nearest to a whole number. -/
def whole (m : Nat) : Nat := roundUnits (m * one) 1

/-- The whole number that is written where one has been read as parts of `d`. -/
def rewritten (d m : Nat) : Nat := halfUp (rescaled d (whole m)) one

theorem pos_one : 0 < one := Nat.two_pow_pos 149

theorem one_eq_mul {k : Nat} (hk : k ≤ 149) : one = 2 ^ k * 2 ^ (149 - k) := by
  rw [one, ← Nat.pow_add, Nat.add_sub_cancel' hk]

variable {d i : Nat}

/-! ## The magnitude of a whole number -/

/-- A whole number of 24 bits, with its significand shifted into place. -/
theorem whole_of_shift {m k : Nat} (hlow : 2 ^ 23 ≤ m * 2 ^ k) (hhigh : m * 2 ^ k < 2 ^ 24)
    (hk : k ≤ 23) : whole m = m * 2 ^ k * 2 ^ (149 - k) := by
  rw [whole, one_eq_mul (by omega : k ≤ 149), ← Nat.mul_assoc,
    roundUnits_significand hlow (by omega)]

theorem exists_shift {m : Nat} (hpos : 0 < m) (hlt : m < 2 ^ 24) :
    ∃ k ≤ 23, 2 ^ 23 ≤ m * 2 ^ k ∧ m * 2 ^ k < 2 ^ 24 := by
  -- the shift that brings the highest bit to place 23
  have hlog : m.log2 < 24 := (Nat.log2_lt (by omega)).2 hlt
  have hlow := Nat.log2_self_le (n := m) (by omega)
  have hhigh := @Nat.lt_log2_self m
  have hsplit : m.log2 + (23 - m.log2) = 23 := by omega
  have hpow := Nat.two_pow_pos (23 - m.log2)
  refine ⟨23 - m.log2, by omega, ?_, ?_⟩
  · calc 2 ^ 23 = 2 ^ m.log2 * 2 ^ (23 - m.log2) := by rw [← Nat.pow_add, hsplit]
      _ ≤ m * 2 ^ (23 - m.log2) := Nat.mul_le_mul_right _ hlow
  · calc m * 2 ^ (23 - m.log2) < 2 ^ (m.log2 + 1) * 2 ^ (23 - m.log2) :=
        Nat.mul_lt_mul_of_pos_right hhigh hpow
      _ = 2 ^ 24 := by rw [← Nat.pow_add, Nat.add_right_comm, hsplit]

/-- A whole number of 24 bits has a magnitude of its own. -/
theorem whole_of_lt {m : Nat} (h : m < 2 ^ 24) : whole m = m * one := by
  rcases Nat.eq_zero_or_pos m with rfl | hpos
  · decide +kernel
  · obtain ⟨k, hk, hlow, hhigh⟩ := exists_shift hpos h
    rw [whole_of_shift hlow hhigh hk, one_eq_mul (by omega : k ≤ 149), Nat.mul_assoc]

/-- The least number of 25 bits has one too. -/
theorem whole_of_le {m : Nat} (h : m ≤ 2 ^ 24) : whole m = m * one := by
  rcases Nat.lt_or_eq_of_le h with hlt | rfl
  · exact whole_of_lt hlt
  · exact roundUnits_significand (by decide) (by decide) 149

/-- The powers of ten up to `10 ^ 9` have one. -/
theorem whole_ten_pow {k : Nat} (h : k ≤ 9) : whole (10 ^ k) = 10 ^ k * one := by
  have hfactors : 10 ^ k * one = 5 ^ k * 2 ^ (k + 149) := by
    rw [show 10 = 5 * 2 from rfl, Nat.mul_pow, one, Nat.mul_assoc, ← Nat.pow_add]
  have hsignificand : 5 ^ k ≤ 2 ^ 24 :=
    Nat.le_trans (Nat.pow_le_pow_right (by decide) h) (by decide)
  have hlimit : 5 ^ k * 2 ^ (k + 149) < limit := by
    refine Nat.lt_of_le_of_lt (Nat.mul_le_mul hsignificand
      (Nat.pow_le_pow_right (by decide) (by omega : k + 149 ≤ 158))) ?_
    decide
  rw [whole, hfactors]
  exact roundUnits_of_representable (representable_mul_two_pow _ hsignificand hlimit)

/-- From `2 ^ 24` to `2 ^ 25` the even numbers have. -/
theorem whole_of_lt_two_mul {m : Nat} (hlow : 2 ^ 24 ≤ m) (hhigh : m < 2 ^ 25) :
    whole m = halfEven m 2 * 2 * one ∧
      whole (halfEven m 2 * 2) = halfEven m 2 * 2 * one := by
  have hnear := halfEven_near m (by decide : 0 < 2)
  have hone : ∀ a, a * 2 * one = a * 2 ^ 150 := fun a => by
    rw [one, Nat.mul_assoc, ← Nat.pow_succ']
  refine ⟨?_, ?_⟩
  · rw [hone]
    exact @roundUnits_mul_two_pow m 1 1 (by omega) (by omega) 149
  · rw [whole, hone]
    exact roundUnits_significand (by omega) (by omega) 150

/-- The whole number that the magnitude of a whole number stands for: the number itself up to
`2 ^ 24`, and one next to it at most up to `2 ^ 25`. -/
theorem near_of_whole_eq {m n : Nat} (h : whole m = n * one) (hm : m < 2 ^ 25) :
    (m ≤ n + 1 ∧ n ≤ m + 1) ∧ (m ≤ 2 ^ 24 → n = m) := by
  by_cases hsmall : m ≤ 2 ^ 24
  · rw [whole_of_le hsmall] at h
    obtain rfl := Nat.eq_of_mul_eq_mul_right pos_one h
    exact ⟨by omega, fun _ => rfl⟩
  · rw [(whole_of_lt_two_mul (by omega) hm).1] at h
    obtain rfl := Nat.eq_of_mul_eq_mul_right pos_one h
    have hnear := halfEven_near m (by decide : 0 < 2)
    exact ⟨by omega, fun hle => absurd hle hsmall⟩

/-- From `2 ^ 23` on the places of a magnitude are whole numbers. -/
theorem exists_whole {m : Nat} (h : 2 ^ 23 ≤ m) :
    ∃ a e, 149 ≤ e ∧ 2 ^ 23 ≤ a ∧ a < 2 ^ 24 ∧ whole m = a * 2 ^ e := by
  have hlow := Nat.log2_self_le (n := m) (by omega)
  have hhigh := @Nat.lt_log2_self m
  have hlog : 23 ≤ m.log2 := (Nat.le_log2 (by omega)).2 h
  obtain ⟨j, hj⟩ := Nat.exists_eq_add_of_le hlog
  rw [hj] at hlow hhigh
  rw [Nat.pow_add] at hlow
  rw [Nat.add_right_comm, Nat.pow_add] at hhigh
  -- `j` bits of the number lie behind its significand
  have hround := @roundUnits_mul_two_pow m 1 j (by simpa using hlow) (by simpa using hhigh) 149
  rw [Nat.one_mul] at hround
  have hnear := halfEven_near m (Nat.two_pow_pos j)
  have hpow := Nat.two_pow_pos j
  have hbounds : 2 ^ 23 ≤ halfEven m (2 ^ j) ∧ halfEven m (2 ^ j) ≤ 2 ^ 24 := by
    have hdiv : 2 ^ 23 ≤ m / 2 ^ j ∧ m / 2 ^ j < 2 ^ 24 :=
      ⟨(Nat.le_div_iff_mul_le hpow).2 hlow, (Nat.div_lt_iff_lt_mul hpow).2 hhigh⟩
    have hle := Rounding.le_halfEven m (2 ^ j)
    have hge := Rounding.halfEven_le m (2 ^ j)
    omega
  -- rounding up can carry into one more bit
  by_cases hcarry : halfEven m (2 ^ j) < 2 ^ 24
  · exact ⟨_, j + 149, by omega, hbounds.1, hcarry, hround⟩
  · refine ⟨2 ^ 23, j + 149 + 1, by omega, by decide, by decide, ?_⟩
    rw [whole, one, hround, ← carry, show halfEven m (2 ^ j) = 2 ^ 24 by omega]

/-! ## Numbers that are written as they are read -/

/-- A number is written anew as the whole number nearest to what comes back. -/
theorem rewritten_eq {m a b k : Nat} (hwhole : whole m = a * 2 ^ (149 - k))
    (hback : rescaled d (a * 2 ^ (149 - k)) = b * 2 ^ (149 - k)) (hk : k ≤ 23) :
    rewritten d m = halfUp b (2 ^ k) := by
  rw [rewritten, hwhole, hback, one_eq_mul (by omega : k ≤ 149),
    halfUp_mul_mul _ _ (Nat.two_pow_pos _)]

theorem mul_two_pow_eq (b : Nat) {e : Nat} (he : 149 ≤ e) : b * 2 ^ e = b * 2 ^ (e - 149) * one := by
  rw [one, Nat.mul_assoc, ← Nat.pow_add, Nat.sub_add_cancel he]

/-- Where the places are whole numbers, what comes back is the number that is written. -/
theorem rewritten_eq_of_le {m a b e : Nat} (he : 149 ≤ e) (hwhole : whole m = a * 2 ^ e)
    (hback : rescaled d (a * 2 ^ e) = b * 2 ^ e) : rewritten d m = b * 2 ^ (e - 149) := by
  rw [rewritten, hwhole, hback, mul_two_pow_eq b he, Rounding.halfUp_mul_right _ pos_one]

/-- Up to `2 ^ 22` a number that has been divided is less than a quarter of one off when it is
multiplied back. -/
theorem mul_quotient_near {m : Nat} (hpos : 0 < d) (hd : d ≤ 2 ^ 126) (hm : m ≤ 2 ^ 22) :
    2 * (roundUnits (m * one) d * d) < 2 * (m * one) + 2 ^ 148 ∧
      2 * (m * one) < 2 * (roundUnits (m * one) d * d) + 2 ^ 148 := by
  have hone : one = 2 * 2 ^ 148 := by rw [one, ← Nat.pow_succ']
  have hunits : m * one ≤ 2 ^ 22 * one := Nat.mul_le_mul_right one hm
  rcases Nat.eq_zero_or_pos m with rfl | hm0
  · rw [Nat.zero_mul, roundUnits_zero hpos]
    omega
  · -- the quotient is not subnormal, since the divisor is far less than the units of one
    have hnormal : 2 ^ 23 * d ≤ m * one :=
      calc 2 ^ 23 * d ≤ 2 ^ 23 * 2 ^ 126 := Nat.mul_le_mul_left _ hd
        _ = one := by rw [one, ← Nat.pow_add]
        _ ≤ m * one := Nat.le_mul_of_pos_left one hm0
    have hnear := roundUnits_near_of_le hpos hnormal
    rw [Nat.mul_comm d] at hnear
    omega

/-- Up to `2 ^ 22` a number that has been divided is still the nearest one to so many parts, without
another rounding. -/
theorem halfEven_quotient {m : Nat} (hpos : 0 < d) (hd : d ≤ 2 ^ 126) (hm : m ≤ 2 ^ 22) :
    halfEven (roundUnits (m * one) d * d) one = m := by
  have hone : one = 2 * 2 ^ 148 := by rw [one, ← Nat.pow_succ']
  have hquotient := mul_quotient_near hpos hd hm
  generalize roundUnits (m * one) d * d = p at hquotient ⊢
  rw [Nat.mul_comm m] at hquotient
  exact halfEven_eq (by omega) (by omega)

/-- Up to `2 ^ 22` a number is written as it is read, whatever it is read as parts of. -/
theorem rewritten_of_le {m : Nat} (hpos : 0 < d) (hd : d ≤ 2 ^ 24) (hm : m ≤ 2 ^ 22) :
    rewritten d m = m := by
  have hone : one = 2 * 2 ^ 148 := by rw [one, ← Nat.pow_succ']
  have hunits : m * one ≤ 2 ^ 22 * one := Nat.mul_le_mul_right one hm
  have hquotient := mul_quotient_near hpos
    (Nat.le_trans hd (Nat.pow_le_pow_right (by decide) (by decide : 24 ≤ 126))) hm
  rw [rewritten, whole_of_lt (by omega), rescaled]
  generalize roundUnits (m * one) d = q at hquotient ⊢
  -- around `2 ^ 22` magnitudes are half of one apart, so the product is a quarter off at most
  have hproduct := @roundUnits_near_of_lt (q * d) 1 148 Nat.one_pos (by omega)
  rw [Nat.one_mul, Nat.one_mul] at hproduct
  generalize roundUnits (q * d) 1 = p at hproduct ⊢
  rw [Nat.mul_comm m] at hquotient
  exact halfUp_eq (by omega) (by omega)

/-- Where the places of a magnitude are whole numbers, what comes back is one and comes back. -/
theorem rewritten_of_large (h : Scales d i) {m : Nat} (hm : 2 ^ 23 ≤ m) :
    rewritten d (rewritten d m) = rewritten d m := by
  obtain ⟨a, e, he, hlow, hhigh, hwhole⟩ := exists_whole hm
  obtain ⟨b, hback, hagain, -, hlow', hhigh'⟩ := exists_rescaled h hlow hhigh (by omega : 7 ≤ e)
  have hwhole' : whole (b * 2 ^ (e - 149)) = b * 2 ^ e := by
    rw [whole, ← mul_two_pow_eq b he, roundUnits_significand hlow' hhigh']
  rw [rewritten_eq_of_le he hwhole hback, rewritten_eq_of_le he hwhole' hagain]

/-! ## Numbers whose places are halves -/

/-- The whole numbers that are written as the next number when they have been read. -/
def Drifts (d m : Nat) : Prop :=
  d = 100 ∧ 6553600 ≤ m ∧ m < 2 ^ 23 ∧ m % 25 ∈ [2, 9, 13, 20]

instance (d m : Nat) : Decidable (Drifts d m) := by
  unfold Drifts
  infer_instance

theorem not_drifts_of_lt {m : Nat} (h : m < 2 ^ 22) : ¬ Drifts d m := by
  rintro ⟨-, hlow, -, -⟩
  omega

theorem not_drifts_of_le {m : Nat} (h : 2 ^ 23 ≤ m) : ¬ Drifts d m := by
  rintro ⟨-, -, hhigh, -⟩
  omega

/-- Between `2 ^ 22` and `2 ^ 23` the significand is twice the number, which comes back where the
quotients are fine. -/
theorem rewritten_of_half_fine (h : Scales d i) {m : Nat} (hlow : 2 ^ 22 ≤ m) (hhigh : m < 2 ^ 23)
    (hfine : m * 2 ^ 1 * 2 ^ (i + 1) < 2 ^ 24 * d) : rewritten d m = m := by
  have hi := h.le_six
  have hwhole := @whole_of_shift m 1 (by omega) (by omega) (by omega)
  have hback := @rescaled_of_fine d i h (m * 2 ^ 1) (by omega) hfine (149 - 1) (by omega)
  rw [rewritten_eq hwhole hback (by omega), Rounding.halfUp_mul_right _ (by decide)]

/-- Where they are coarse, it comes back resettled. -/
theorem rewritten_of_half_coarse (h : Scales d i) {m : Nat} (hlow : 2 ^ 22 ≤ m) (hhigh : m < 2 ^ 23)
    (hcoarse : 2 ^ 24 * d ≤ m * 2 ^ 1 * 2 ^ (i + 1)) :
    rewritten d m = halfUp (resettled d i (m * 2 ^ 1)) (2 ^ 1) := by
  have hi := h.le_six
  have hwhole := @whole_of_shift m 1 (by omega) (by omega) (by omega)
  have hback := @rescaled_of_coarse d i h (m * 2 ^ 1) hcoarse (by omega) (149 - 1) (by omega)
  exact rewritten_eq hwhole hback (by omega)

/-- What becomes of a number whose places are halves repeats itself. -/
theorem halfUp_resettled_add {c k : Nat} (hd : 0 < d) (hc : c * 2 ^ i = k * d) (j r : Nat) :
    halfUp (resettled d i ((r + j * c) * 2 ^ 1)) (2 ^ 1)
      = halfUp (resettled d i (r * 2 ^ 1)) (2 ^ 1) + j * c := by
  have hperiod : j * c * 2 ^ i = j * k * d := by rw [Nat.mul_assoc, hc, Nat.mul_assoc]
  have hsplit : (r + j * c) * 2 ^ 1 = r * 2 ^ 1 + 2 * (j * c) := by omega
  rw [hsplit, resettled_add hd hperiod, Nat.mul_comm 2, ← Rounding.halfUp_add_mul _ _ (by decide)]

/-- A number of tenths whose places are halves is written as it is read. -/
theorem rewritten_ten_of_middle {m : Nat} (hlow : 2 ^ 22 ≤ m) (hhigh : m < 2 ^ 23) :
    rewritten 10 m = m := by
  have h : Scales 10 3 := Or.inl ⟨rfl, rfl⟩
  by_cases hfine : m * 2 ^ 1 * 2 ^ (3 + 1) < 2 ^ 24 * 10
  · exact rewritten_of_half_fine h hlow hhigh hfine
  · -- five tenths more are four quotients more, so one period tells everything
    have hperiod : ∀ r < 5, halfUp (resettled 10 3 (r * 2 ^ 1)) (2 ^ 1) = r := by decide
    have hadd := @halfUp_resettled_add 10 3 5 4 (by decide) (by decide) (m / 5) (m % 5)
    rw [hperiod _ (Nat.mod_lt _ (by decide)), Nat.mod_add_div'] at hadd
    rw [rewritten_of_half_coarse h hlow hhigh (by omega), hadd]

/-- A number of hundredths whose places are halves is written as it is read, unless it drifts. -/
theorem rewritten_hundred_of_middle {m : Nat} (hlow : 2 ^ 22 ≤ m) (hhigh : m < 2 ^ 23) :
    rewritten 100 m = if Drifts 100 m then m + 1 else m := by
  have h : Scales 100 6 := Or.inr ⟨rfl, rfl⟩
  by_cases hfine : m * 2 ^ 1 * 2 ^ (6 + 1) < 2 ^ 24 * 100
  · rw [if_neg (fun hdrifts => absurd hdrifts.2.1 (by omega))]
    exact rewritten_of_half_fine h hlow hhigh hfine
  · -- 25 hundredths more are 16 quotients more
    have hperiod : ∀ r < 25, halfUp (resettled 100 6 (r * 2 ^ 1)) (2 ^ 1)
        = if r ∈ [2, 9, 13, 20] then r + 1 else r := by decide
    have hadd := @halfUp_resettled_add 100 6 25 16 (by decide) (by decide) (m / 25) (m % 25)
    have hdrifts : Drifts 100 m ↔ m % 25 ∈ [2, 9, 13, 20] :=
      ⟨fun hdrifts => hdrifts.2.2.2, fun hmem => ⟨rfl, by omega, hhigh, hmem⟩⟩
    rw [hperiod _ (Nat.mod_lt _ (by decide)), Nat.mod_add_div'] at hadd
    rw [rewritten_of_half_coarse h hlow hhigh (by omega), hadd]
    simp only [hdrifts]
    split <;> omega

/-- A number whose places are halves is written as it is read, unless it drifts. -/
theorem rewritten_of_middle (h : Scales d i) {m : Nat} (hlow : 2 ^ 22 ≤ m) (hhigh : m < 2 ^ 23) :
    rewritten d m = if Drifts d m then m + 1 else m := by
  rcases h with ⟨rfl, -⟩ | ⟨rfl, -⟩
  · rw [if_neg (fun hdrifts => absurd hdrifts.1 (by decide))]
    exact rewritten_ten_of_middle hlow hhigh
  · exact rewritten_hundred_of_middle hlow hhigh

/-- The number behind one that drifts does not drift. -/
theorem rewritten_succ_of_drifts {m : Nat} (h : Drifts d m) : rewritten d (m + 1) = m + 1 := by
  obtain ⟨rfl, hlow, hhigh, hmem⟩ := h
  have hnext : ¬ Drifts 100 (m + 1) := by
    rintro ⟨-, -, -, hmem'⟩
    simp only [List.mem_cons, List.not_mem_nil, or_false] at hmem hmem'
    omega
  have hlt : m + 1 < 2 ^ 23 := by
    simp only [List.mem_cons, List.not_mem_nil, or_false] at hmem
    omega
  rw [rewritten_hundred_of_middle (by omega) hlt, if_neg hnext]

theorem rewritten_two_pow (h : Scales d i) : rewritten d (2 ^ 23) = 2 ^ 23 := by
  rcases h with ⟨rfl, rfl⟩ | ⟨rfl, rfl⟩ <;> decide +kernel

/-- A number that has been read and written once is kept from then on. -/
theorem rewritten_rewritten (h : Scales d i) (m : Nat) :
    rewritten d (rewritten d m) = rewritten d m := by
  by_cases hsmall : m < 2 ^ 22
  · have hm : rewritten d m = m := rewritten_of_le h.pos h.le_two_pow (by omega)
    rw [hm, hm]
  by_cases hmiddle : m < 2 ^ 23
  · have hm := rewritten_of_middle h (by omega) hmiddle
    by_cases hdrifts : Drifts d m
    · rw [if_pos hdrifts] at hm
      rw [hm, rewritten_succ_of_drifts hdrifts]
    · rw [if_neg hdrifts] at hm
      rw [hm, hm]
  · exact rewritten_of_large h (by omega)

/-- So a number that has been read and written does not drift. -/
theorem not_drifts_rewritten (h : Scales d i) (m : Nat) : ¬ Drifts d (rewritten d m) := by
  intro hdrifts
  have hagain := rewritten_rewritten h m
  have hlow : 6553600 ≤ rewritten d m := hdrifts.2.1
  rw [rewritten_of_middle h (by omega) hdrifts.2.2.1, if_pos hdrifts] at hagain
  omega

/-! ## Range -/

theorem whole_le {m b : Nat} (h : m ≤ 2 ^ b) : whole m ≤ 2 ^ b * one := by
  rw [one, ← Nat.pow_add]
  refine roundUnits_le Nat.one_pos ?_
  rw [Nat.mul_one, Nat.pow_add]
  exact Nat.mul_le_mul_right _ h

theorem rewritten_limit (h : Scales d i) : rewritten d (2 ^ 31) = 2 ^ 31 := by
  rcases h with ⟨rfl, rfl⟩ | ⟨rfl, rfl⟩ <;> decide +kernel

/-- The greatest number of a word has the magnitude of the next one. -/
theorem rewritten_greatest (h : Scales d i) : rewritten d (2 ^ 31 - 1) = 2 ^ 31 := by
  have hwhole : whole (2 ^ 31 - 1) = whole (2 ^ 31) := by decide +kernel
  rw [rewritten, hwhole]
  exact rewritten_limit h

end ChannelPreset.Magnitude
