import ChannelPreset.Proofs.Field.Numbers

/-!
# Delays

A delay is counted in whole milliseconds and stored in samples, 96 for each of them. Reading cuts
off the samples that make no whole millisecond. As long as a word has no more than `2 ^ 24`
milliseconds nothing else is lost when the delay is written again; beyond that there are only the
even numbers of milliseconds, so that one more may be lost or added
(`Single.restoredDelay_near`).

A delay whose samples have a word is written again as that word, and no other delay is
(`Single.restoredDelay_toDelayWord_eq_iff`). The samples of a delay that has been read always have one
(`Single.toDelayWord_settled`).
-/

namespace ChannelPreset.Single

open Magnitude (whole one pos_one near_of_whole_eq)

/-- The samples of a delay, whether there is a word for them or not. -/
def samples (x : Single) : Int := x.truncateToWord.toInt * samplesPerMillisecond

/-- The word that is stored for a delay that has been read from a word. -/
def restoredDelay (word : Int32) : Int32 := (ofDelayWord word).toDelayWord

theorem toInt_toDelayWord (x : Single) :
    x.toDelayWord.toInt = max (-2 ^ 31) (min (2 ^ 31 - 1) x.samples) :=
  toInt_saturate x.samples

theorem toInt_toDelayWord_of_le {x : Single} (h : -2 ^ 31 ≤ x.samples ∧ x.samples < 2 ^ 31) :
    x.toDelayWord.toInt = x.samples :=
  saturate_of_le h.1 h.2

/-! ## Delays that are read -/

/-- The milliseconds that a delay is read as are near a whole number, whose samples have a word. -/
theorem exists_whole_delay {m : Nat} (h : m ≤ 2 ^ 31 / 96) :
    ∃ n ≤ 2 ^ 31 / 96, whole m = n * one := by
  by_cases hlt : m < 2 ^ 24
  · -- a number of 24 bits is its own magnitude, a greater one becomes even
    exact ⟨m, h, Magnitude.whole_of_lt hlt⟩
  · have hnear := Rounding.halfEven_near m (by decide : 0 < 2)
    have heven := @Rounding.halfEven_even m 2 (by decide)
    exact ⟨Rounding.halfEven m 2 * 2, by omega,
      (Magnitude.whole_of_lt_two_mul (by omega) (by omega)).1⟩

/-- The samples of a delay that has been read from a word. -/
theorem exists_samples (word : Int32) :
    ∃ n ≤ 2 ^ 31 / 96, whole (word.toInt.tdiv 96).natAbs = n * one ∧
      (ofDelayWord word).samples = signed (decide (word.toInt.tdiv 96 < 0)) n * 96 := by
  have hword := natAbs_toInt_le word
  have habs : (word.toInt.tdiv 96).natAbs ≤ 2 ^ 31 / 96 := by
    rw [Int.natAbs_tdiv]
    exact Nat.div_le_div_right hword
  obtain ⟨n, hn, hwhole⟩ := exists_whole_delay habs
  obtain ⟨x, hx, hunits⟩ := exists_ofInt (i := word.toInt.tdiv 96) (by omega)
  refine ⟨n, hn, hwhole, ?_⟩
  -- nothing is cut off behind the point of a whole number
  have hmilliseconds : (ofDelayWord word).truncateToWord.toInt
      = signed (decide (word.toInt.tdiv 96 < 0)) n := by
    have hrange := natAbs_signed (decide (word.toInt.tdiv 96 < 0)) n
    rw [ofDelayWord, samplesPerMillisecond, hx, truncateToWord, toWord, hunits, hwhole,
      Nat.mul_div_cancel _ pos_one]
    exact saturate_of_le (by omega) (by omega)
  rw [samples, hmilliseconds, samplesPerMillisecond]

/-- They have a word. -/
theorem samples_ofDelayWord_mem (word : Int32) :
    -2 ^ 31 ≤ (ofDelayWord word).samples ∧ (ofDelayWord word).samples < 2 ^ 31 := by
  obtain ⟨n, hn, -, hsamples⟩ := exists_samples word
  have hrange := natAbs_signed (decide (word.toInt.tdiv 96 < 0)) n
  rw [hsamples]
  generalize signed _ n = i at hrange
  omega

/-- The word that is stored for a delay read from a word. -/
theorem exists_toDelayWord (word : Int32) :
    ∃ n, whole (word.toInt.tdiv 96).natAbs = n * one ∧
      (restoredDelay word).toInt = signed (decide (word.toInt.tdiv 96 < 0)) n * 96 := by
  obtain ⟨n, -, hwhole, hsamples⟩ := exists_samples word
  exact ⟨n, hwhole, (toInt_toDelayWord_of_le (samples_ofDelayWord_mem word)).trans hsamples⟩

/-- Division that cuts off divides the absolute value. -/
theorem tdiv_eq_signed (i : Int) : i.tdiv 96 = signed (i < 0) (i.natAbs / 96) := by
  by_cases h : i < 0
  · have hneg : (-i).tdiv 96 = -i / 96 := Int.tdiv_eq_ediv_of_nonneg (by omega)
    rw [Int.neg_tdiv] at hneg
    rw [decide_eq_true h, signed_true]
    omega
  · rw [decide_eq_false h, signed_false, Int.tdiv_eq_ediv_of_nonneg (by omega)]
    omega

/-- A word of `m` milliseconds and a rest is restored as one of `n` milliseconds on the same side of
zero, where the two numbers are neighbours at most, and the same up to `2 ^ 24`. -/
theorem exists_restoredDelay (word : Int32) :
    ∃ (negative : Bool) (m n rest : Nat), rest < 96 ∧
      word.toInt = signed negative (96 * m + rest) ∧ word.toInt.tdiv 96 = signed negative m ∧
      (restoredDelay word).toInt = signed negative (96 * n) ∧
      (m ≤ n + 1 ∧ n ≤ m + 1) ∧ (m ≤ 2 ^ 24 → n = m) := by
  obtain ⟨n, hwhole, hword⟩ := exists_toDelayWord word
  have habs : (word.toInt.tdiv 96).natAbs = word.toInt.natAbs / 96 := Int.natAbs_tdiv _ _
  have hrange := natAbs_toInt_le word
  have hnear := near_of_whole_eq (habs ▸ hwhole) (by omega)
  have hcut := tdiv_eq_signed word.toInt
  refine ⟨word.toInt < 0, word.toInt.natAbs / 96, n, word.toInt.natAbs % 96,
    Nat.mod_lt _ (by decide), ?_, hcut, hword.trans ?_, hnear⟩
  · rw [Nat.div_add_mod, signed_natAbs]
  clear hwhole hword habs hrange
  generalize word.toInt.tdiv 96 = q at hcut ⊢
  generalize word.toInt = i at hcut hnear ⊢
  -- the milliseconds have the sign of the word, unless there are none of them
  by_cases hsign : i < 0
  · rw [decide_eq_true hsign, signed_true] at hcut ⊢
    by_cases hzero : q < 0
    · rw [decide_eq_true hzero, signed_true]
      omega
    · rw [decide_eq_false hzero, signed_false]
      omega
  · rw [decide_eq_false hsign, signed_false] at hcut ⊢
    rw [decide_eq_false (by omega), signed_false]
    omega

/-- A word and the word that is stored for the delay read from it. The samples of that delay have a
word, and are a whole number of milliseconds. Up to `2 ^ 24` milliseconds they are the ones that
have been read, so that the word loses less than a millisecond, and nothing if it had none to lose;
beyond that it is less than two milliseconds away. -/
theorem restoredDelay_near (word : Int32) :
    (-2 ^ 31 ≤ (ofDelayWord word).samples ∧ (ofDelayWord word).samples < 2 ^ 31) ∧
      (96 : Int) ∣ (restoredDelay word).toInt ∧
      ((restoredDelay word).toInt - word.toInt).natAbs < 192 ∧
      ((word.toInt.tdiv 96).natAbs ≤ 2 ^ 24 →
        (restoredDelay word).toInt = 96 * word.toInt.tdiv 96 ∧
          (restoredDelay word).toInt.natAbs ≤ word.toInt.natAbs ∧
          (word.toInt - (restoredDelay word).toInt).natAbs < 96 ∧
          ((96 : Int) ∣ word.toInt → restoredDelay word = word)) := by
  obtain ⟨negative, m, n, rest, hrest, hword, hcut, hrestored, hnear, hexact⟩ :=
    exists_restoredDelay word
  refine ⟨samples_ofDelayWord_mem word, ?_⟩
  -- the two sides of zero are alike, since all of it is about whole milliseconds on one side
  cases negative
  · simp only [signed_false] at hword hcut hrestored
    refine ⟨by omega, by omega, fun hsmall => ?_⟩
    have hn := hexact (by omega)
    exact ⟨by omega, by omega, by omega, fun hdvd => Int32.toInt_inj.1 (by omega)⟩
  · simp only [signed_true] at hword hcut hrestored
    refine ⟨by omega, by omega, fun hsmall => ?_⟩
    have hn := hexact (by omega)
    exact ⟨by omega, by omega, by omega, fun hdvd => Int32.toInt_inj.1 (by omega)⟩

/-- The last word of `2 ^ 24` milliseconds on the side below zero. -/
theorem restoredDelay_near_last :
    ((-1610612831 : Int32).toInt.tdiv 96).natAbs ≤ 2 ^ 24 ∧
      (restoredDelay (-1610612831)).toInt = -1610612736 ∧
      ((-1610612831 : Int32).toInt - (restoredDelay (-1610612831)).toInt).natAbs < 96 := by
  have hsmall : ((-1610612831 : Int32).toInt.tdiv 96).natAbs ≤ 2 ^ 24 := by decide
  obtain ⟨-, -, -, hexact⟩ := restoredDelay_near (-1610612831)
  obtain ⟨hrestored, -, hnear, -⟩ := hexact hsmall
  exact ⟨hsmall, hrestored.trans (by decide), hnear⟩

/-- The greatest number of milliseconds is odd, and the even number below it still has a word. -/
example : restoredDelay 2147483616 = 2147483520 := by decide +kernel

/-! ## Delays that are written and read -/

theorem toInt_truncateToWord (negative : Bool) (m : Magnitude) :
    (truncateToWord (.finite negative m)).toInt
      = max (-2 ^ 31) (min (2 ^ 31 - 1) (signed negative (m.units / one))) :=
  toInt_saturate _

/-- The whole milliseconds of a delay are a magnitude of their own, as long as their samples have a
word. -/
theorem whole_natAbs_truncateToWord {x : Single}
    (h : -2 ^ 31 ≤ x.samples ∧ x.samples < 2 ^ 31) :
    whole x.truncateToWord.toInt.natAbs = x.truncateToWord.toInt.natAbs * one := by
  cases x with
  | nan => exact Magnitude.whole_of_le (by decide)
  | infinite negative => cases negative <;> exact absurd h (by decide)
  | finite negative m =>
    have hclamped := toInt_truncateToWord negative m
    have habs : (truncateToWord (.finite negative m)).toInt.natAbs = m.units / one := by
      unfold samples samplesPerMillisecond at h
      generalize (truncateToWord (.finite negative m)).toInt = t at h hclamped ⊢
      generalize m.units / one = n at hclamped ⊢
      cases negative
      · rw [signed_false] at hclamped
        omega
      · rw [signed_true] at hclamped
        omega
    rw [habs]
    by_cases hsmall : m.units / one ≤ 2 ^ 24
    · exact Magnitude.whole_of_le hsmall
    · -- the places of so great a magnitude are whole numbers, so nothing has been cut off
      have hgreat : 2 ^ (23 + 149) ≤ m.units := by
        rw [Nat.pow_add]
        exact (Nat.le_div_iff_mul_le pos_one).1 (by omega)
      have hdvd : one ∣ m.units :=
        Magnitude.two_pow_dvd_of_representable m.representable hgreat
      rw [whole, Nat.div_mul_cancel hdvd, Magnitude.roundUnits_of_representable m.representable]

/-- A delay is written again as the same word exactly when its samples have a word. -/
theorem restoredDelay_toDelayWord_eq_iff (x : Single) :
    restoredDelay x.toDelayWord = x.toDelayWord ↔ -2 ^ 31 ≤ x.samples ∧ x.samples < 2 ^ 31 := by
  have hclamped := toInt_toDelayWord x
  constructor
  · intro hkept
    -- the samples are only cut to one of the ends of the range, and neither of them is kept
    have hgreatest : x.toDelayWord ≠ Int32.maxValue := fun h =>
      absurd (h ▸ hkept) (by decide +kernel)
    have hleast : x.toDelayWord ≠ Int32.minValue := fun h =>
      absurd (h ▸ hkept) (by decide +kernel)
    rw [Ne, ← Int32.toInt_inj, Int32.toInt_maxValue] at hgreatest
    rw [Ne, ← Int32.toInt_inj, Int32.toInt_minValue] at hleast
    generalize x.toDelayWord.toInt = w at hclamped hgreatest hleast
    generalize x.samples = n at hclamped ⊢
    omega
  · intro h
    have hword : x.toDelayWord.toInt = x.truncateToWord.toInt * 96 := toInt_toDelayWord_of_le h
    obtain ⟨n, hwhole, hrestored⟩ := exists_toDelayWord x.toDelayWord
    rw [hword, Int.mul_tdiv_cancel _ (by decide)] at hwhole hrestored
    rw [whole_natAbs_truncateToWord h] at hwhole
    obtain rfl := Nat.eq_of_mul_eq_mul_right pos_one hwhole
    rw [signed_natAbs] at hrestored
    exact Int32.toInt_inj.1 (hrestored.trans hword.symm)

/-- A delay that is read from a word and written is read and written again as the same word. -/
theorem toDelayWord_settled (word : Int32) :
    (ofDelayWord (ofDelayWord word).toDelayWord).toDelayWord = (ofDelayWord word).toDelayWord :=
  (restoredDelay_toDelayWord_eq_iff (ofDelayWord word)).2 (samples_ofDelayWord_mem word)

end ChannelPreset.Single
