import ChannelPreset.Field.Encoding
import ChannelPreset.Proofs.Single.Writing

/-!
# Numbers Written Again

The word that is written for a number that has been read from a word. For a number in parts of a
divisor it is `Magnitude.rewritten` of the word, with the sign of the word and cut to the range of
words (`Single.toScaledWord_ofScaledWord`), which is the word itself as long as it is not greater
than `2 ^ 22` (`Single.toScaledWord_ofScaledWord_of_le`).

The word of a number in tenths or hundredths, whatever number that is, is kept when it is read and
written unless it drifts (`Single.toScaledWord_kept_iff`). The word of a number that has been read
does not drift (`Single.toScaledWord_settled`).
-/

namespace ChannelPreset.Single

open Magnitude (whole rewritten rescaled written one pos_one limit roundUnits Scales Drifts)

/-! ## Words near an integer -/

@[simp]
theorem signed_true (n : Nat) : signed true n = -(n : Int) := rfl

@[simp]
theorem signed_false (n : Nat) : signed false n = (n : Int) := rfl

theorem toInt_saturate (i : Int) : (saturate i).toInt = max (-2 ^ 31) (min (2 ^ 31 - 1) i) := by
  rw [saturate, Int32.toInt_ofInt_of_le (by omega) (by omega)]

theorem saturate_of_le {i : Int} (hlow : -2 ^ 31 ≤ i) (hhigh : i < 2 ^ 31) :
    (saturate i).toInt = i := by
  rw [toInt_saturate]
  omega

theorem natAbs_toInt_le (word : Int32) : word.toInt.natAbs ≤ 2 ^ 31 := by
  have hlow := word.le_toInt
  have hhigh := word.toInt_lt
  omega

/-! ## Results in range -/

/-- A result that is rounded into range is finite. -/
theorem exists_nearest {n d : Nat} (h : roundUnits n d < limit) (negative : Bool) :
    ∃ m : Magnitude, nearest negative n d = .finite negative m ∧ m.units = roundUnits n d := by
  unfold nearest Magnitude.nearest
  rw [dif_pos h]
  exact ⟨_, rfl, rfl⟩

theorem lt_limit {units b : Nat} (h : units ≤ 2 ^ b) (hb : b < 128 + 149) : units < limit := by
  rw [limit, one, ← Nat.pow_add]
  generalize 128 + 149 = bound at hb ⊢
  exact Nat.lt_of_le_of_lt h (Nat.pow_lt_pow_right (by decide) hb)

theorem whole_lt_limit {m : Nat} (h : m ≤ 2 ^ 31) : whole m < limit := by
  have hle := Magnitude.whole_le h
  rw [one, ← Nat.pow_add] at hle
  exact lt_limit hle (by decide)

/-- An integer in the range of words is near a number. -/
theorem exists_ofInt {i : Int} (h : i.natAbs ≤ 2 ^ 31) :
    ∃ m : Magnitude, ofInt i = .finite (i < 0) m ∧ m.units = whole i.natAbs :=
  exists_nearest (whole_lt_limit h) _

/-! ## Numbers in parts of a divisor -/

variable {d i : Nat} {divisor : Int32}

/-- Multiplying by the magnitude of a whole number multiplies the units. -/
theorem roundUnits_mul_one (units d : Nat) :
    roundUnits (units * (d * one)) one = roundUnits (units * d) 1 := by
  have hscale := Magnitude.roundUnits_mul_mul (units * d) 1 pos_one
  rwa [Nat.one_mul, Nat.mul_assoc] at hscale

/-- A divisor with a magnitude of its own is read as that magnitude. -/
theorem exists_divisor (hdivisor : divisor.toInt.natAbs = d) (hpos : 0 < d)
    (hwhole : whole d = d * one) :
    ∃ v : Magnitude, ofInt divisor.toInt = .finite (divisor.toInt < 0) v ∧ v.units = d * one ∧
      v.units ≠ 0 := by
  obtain ⟨v, hv, hvunits⟩ := exists_ofInt (natAbs_toInt_le divisor)
  rw [hdivisor, hwhole] at hvunits
  refine ⟨v, hv, hvunits, ?_⟩
  rw [hvunits]
  exact Nat.ne_of_gt (Nat.mul_pos hpos pos_one)

theorem quotient_le (hpos : 0 < d) (word : Int32) :
    roundUnits (whole word.toInt.natAbs) d ≤ 2 ^ 180 :=
  Magnitude.roundUnits_le hpos (Nat.le_trans (Magnitude.whole_le (natAbs_toInt_le word))
    (Nat.le_mul_of_pos_right _ hpos))

/-- A number that has been read as parts of a divisor. -/
theorem exists_ofScaledWord (hdivisor : divisor.toInt.natAbs = d) (hpos : 0 < d)
    (hwhole : whole d = d * one) (word : Int32) :
    ∃ q : Magnitude, ofScaledWord divisor word
        = .finite (decide (word.toInt < 0) ^^ decide (divisor.toInt < 0)) q ∧
      q.units = roundUnits (whole word.toInt.natAbs) d := by
  obtain ⟨w, hw, hwunits⟩ := exists_ofInt (natAbs_toInt_le word)
  obtain ⟨v, hv, hvunits, hv0⟩ := exists_divisor hdivisor hpos hwhole
  -- the quotient is the one of the whole numbers, scaled by `one`
  have hdivide : roundUnits (w.units * one) v.units = roundUnits (whole word.toInt.natAbs) d := by
    rw [hwunits, hvunits, Magnitude.roundUnits_mul_mul _ _ pos_one]
  obtain ⟨q, hq, hqunits⟩ := exists_nearest (n := w.units * one) (d := v.units)
    (by rw [hdivide]; exact lt_limit (quotient_le hpos word) (by decide))
    (decide (word.toInt < 0) ^^ decide (divisor.toInt < 0))
  refine ⟨q, ?_, hqunits.trans hdivide⟩
  show div (ofInt word.toInt) (ofInt divisor.toInt) = _
  rw [hw, hv, div, if_neg hv0, hq]

/-- A number that has been read as parts of a divisor, multiplied by it. Whatever sign the divisor
has, the product has the sign of the word. -/
theorem exists_ofScaledWord_mul (hdivisor : divisor.toInt.natAbs = d) (hpos : 0 < d)
    (hle : d ≤ 2 ^ 24) (word : Int32) :
    ∃ m : Magnitude, ofScaledWord divisor word * ofInt divisor.toInt
        = .finite (word.toInt < 0) m ∧ m.units = rescaled d (whole word.toInt.natAbs) := by
  have hwhole := Magnitude.whole_of_le hle
  obtain ⟨q, hq, hqunits⟩ := exists_ofScaledWord hdivisor hpos hwhole word
  obtain ⟨v, hv, hvunits, -⟩ := exists_divisor hdivisor hpos hwhole
  have hproduct : rescaled d (whole word.toInt.natAbs) ≤ 2 ^ 204 := by
    refine Magnitude.roundUnits_le Nat.one_pos ?_
    rw [Nat.mul_one, show 204 = 180 + 24 from rfl, Nat.pow_add]
    exact Nat.mul_le_mul (quotient_le hpos word) hle
  -- the product is the one of the quotient and the whole number, scaled by `one`
  have hmultiply : roundUnits (q.units * v.units) one = rescaled d (whole word.toInt.natAbs) := by
    rw [hvunits, roundUnits_mul_one, hqunits]
    rfl
  obtain ⟨p, hp, hpunits⟩ := exists_nearest (n := q.units * v.units) (d := one)
    (by rw [hmultiply]; exact lt_limit hproduct (by decide)) (decide (word.toInt < 0))
  refine ⟨p, ?_, hpunits.trans hmultiply⟩
  show mul (ofScaledWord divisor word) (ofInt divisor.toInt) = _
  rw [hq, hv, mul, Bool.xor_assoc, Bool.xor_self, Bool.xor_false, hp]

/-- The word that is written for a number read as parts of a divisor. -/
theorem toScaledWord_ofScaledWord (hdivisor : divisor.toInt.natAbs = d) (hpos : 0 < d)
    (hle : d ≤ 2 ^ 24) (word : Int32) :
    (ofScaledWord divisor word).toScaledWord divisor
      = saturate (signed (word.toInt < 0) (rewritten d word.toInt.natAbs)) := by
  obtain ⟨m, hm, hunits⟩ := exists_ofScaledWord_mul hdivisor hpos hle word
  rw [toScaledWord, hm, roundToWord, toWord, hunits]
  rfl

/-- The same of tenths and hundredths. -/
theorem toScaledWord_ofScaledWord_of_scales (h : Scales d i) (hdivisor : divisor.toInt = d)
    (word : Int32) :
    (ofScaledWord divisor word).toScaledWord divisor
      = saturate (signed (word.toInt < 0) (rewritten d word.toInt.natAbs)) :=
  toScaledWord_ofScaledWord (by rw [hdivisor, Int.natAbs_natCast]) h.pos h.le_two_pow word

/-- An integer is made of its sign and its absolute value. -/
theorem signed_natAbs (i : Int) : signed (i < 0) i.natAbs = i := by
  by_cases h : i < 0
  · rw [decide_eq_true h, signed_true]
    omega
  · rw [decide_eq_false h, signed_false]
    omega

theorem natAbs_signed (negative : Bool) (n : Nat) : (signed negative n).natAbs = n := by
  cases negative
  · exact Int.natAbs_natCast n
  · exact (Int.natAbs_neg _).trans (Int.natAbs_natCast n)

/-- Words up to `2 ^ 22` on either side of zero are written as they are read, whatever divisor up to
`2 ^ 24` and of whatever sign they are read with. -/
theorem toScaledWord_ofScaledWord_of_le {divisor word : Int32} (hpos : 1 ≤ divisor.toInt.natAbs)
    (hdivisor : divisor.toInt.natAbs ≤ 2 ^ 24) (hword : word.toInt.natAbs ≤ 2 ^ 22) :
    (ofScaledWord divisor word).toScaledWord divisor = word := by
  apply Int32.toInt_inj.1
  rw [toScaledWord_ofScaledWord rfl hpos hdivisor, Magnitude.rewritten_of_le hpos hdivisor hword,
    signed_natAbs]
  exact saturate_of_le (by omega) (by omega)

/-- The greatest divisor and the greatest word, both negative. -/
theorem toScaledWord_ofScaledWord_of_le_greatest :
    (ofScaledWord (-16777216) (-4194304)).toScaledWord (-16777216) = -4194304 :=
  toScaledWord_ofScaledWord_of_le (by decide) (by decide) (by decide)

/-- Past `2 ^ 22` a word need not come back. -/
example : (ofScaledWord 100 6553602).toScaledWord 100 = 6553603 := by decide +kernel

/-! ## The words of numbers -/

/-- A word at an end of the range of words. -/
def IsEnd (word : Int32) : Prop := word = Int32.minValue ∨ word = Int32.maxValue

/-- A word has the absolute value that it was made of, unless it was cut to the range of words. -/
theorem natAbs_saturate_signed (negative : Bool) (m : Nat) :
    (saturate (signed negative m)).toInt.natAbs = m ∨ IsEnd (saturate (signed negative m)) := by
  unfold IsEnd
  rw [← Int32.toInt_inj, ← Int32.toInt_inj, Int32.toInt_minValue, Int32.toInt_maxValue,
    toInt_saturate]
  cases negative
  · rw [signed_false]
    omega
  · rw [signed_true]
    omega

theorem isEnd_of_infinite (negative : Bool) : IsEnd (infinite negative).roundToWord := by
  cases negative
  · exact Or.inr rfl
  · exact Or.inl rfl

/-- A result that is not rounded into range is infinite. -/
theorem nearest_eq_infinite {n k : Nat} (h : ¬ roundUnits n k < limit) (negative : Bool) :
    nearest negative n k = .infinite negative := by
  unfold nearest Magnitude.nearest
  rw [dif_neg h]

/-- The word of a rounded quotient is the nearest one to its magnitude, or it lies at an end of the
range of words. -/
theorem natAbs_roundToWord_nearest (negative : Bool) (n k : Nat) :
    IsEnd (nearest negative n k).roundToWord ∨
      Representable (roundUnits n k) ∧
        (nearest negative n k).roundToWord.toInt.natAbs
          = Rounding.halfUp (roundUnits n k) one := by
  by_cases hlimit : roundUnits n k < limit
  · obtain ⟨p, hp, hunits⟩ := exists_nearest hlimit negative
    rw [hp, roundToWord, toWord, hunits]
    rcases natAbs_saturate_signed negative (Rounding.halfUp (roundUnits n k) one) with hexact | hcut
    · exact Or.inr ⟨hunits ▸ p.representable, hexact⟩
    · exact Or.inl hcut
  · rw [nearest_eq_infinite hlimit]
    exact Or.inl (isEnd_of_infinite negative)

/-- The word that is stored for a number is zero, or lies at an end of the range of words, or is the
whole number that is written for a magnitude. -/
theorem toScaledWord_cases (h : Scales d i) (hdivisor : divisor.toInt = d) (x : Single) :
    (x.toScaledWord divisor).toInt.natAbs = 0 ∨
      IsEnd (x.toScaledWord divisor) ∨
      ∃ units, Representable units ∧ Representable (roundUnits (units * d) 1) ∧
        (x.toScaledWord divisor).toInt.natAbs = written d units := by
  obtain ⟨v, hv, hvunits, hv0⟩ :=
    exists_divisor (by rw [hdivisor, Int.natAbs_natCast]) h.pos (Magnitude.whole_of_le h.le_two_pow)
  -- the divisor is positive, so the product has the sign of the number
  rw [decide_eq_false (by omega)] at hv
  have hword : x.toScaledWord divisor = (mul x (.finite false v)).roundToWord := by
    rw [← hv]
    rfl
  rw [hword]
  cases x with
  | nan => exact Or.inl rfl
  | infinite negative =>
    -- and it is not zero, so what is infinite stays so
    rw [mul, if_neg hv0]
    exact Or.inr (Or.inl (isEnd_of_infinite _))
  | finite negative m =>
    rw [mul, hvunits]
    rcases natAbs_roundToWord_nearest (negative ^^ false) (m.units * (d * one)) one with
      hend | ⟨hproduct, hwritten⟩
    · exact Or.inr (Or.inl hend)
    · rw [roundUnits_mul_one] at hproduct hwritten
      exact Or.inr (Or.inr ⟨m.units, m.representable, hproduct, hwritten⟩)

/-! ## Words that are written again -/

/-- The words at the ends of the range are kept. -/
theorem toScaledWord_ofScaledWord_of_isEnd (h : Scales d i) (hdivisor : divisor.toInt = d)
    {word : Int32} (hend : IsEnd word) :
    (ofScaledWord divisor word).toScaledWord divisor = word := by
  rw [toScaledWord_ofScaledWord_of_scales h hdivisor]
  -- both are near the same magnitude, which comes back and is cut on the positive side
  rcases hend with rfl | rfl
  · rw [show Int32.minValue.toInt.natAbs = 2 ^ 31 from rfl, Magnitude.rewritten_limit h]
    rfl
  · rw [show Int32.maxValue.toInt.natAbs = 2 ^ 31 - 1 from rfl, Magnitude.rewritten_greatest h]
    rfl

theorem not_drifts_of_isEnd {word : Int32} (hend : IsEnd word) : ¬ Drifts d word.toInt.natAbs := by
  rcases hend with rfl | rfl <;> exact Magnitude.not_drifts_of_le (by decide)

/-- A word that is written as itself or the next one is kept exactly when it does not drift. -/
theorem toScaledWord_ofScaledWord_eq_iff (h : Scales d i) (hdivisor : divisor.toInt = d)
    {word : Int32} (hrewritten : rewritten d word.toInt.natAbs
      = if Drifts d word.toInt.natAbs then word.toInt.natAbs + 1 else word.toInt.natAbs) :
    (ofScaledWord divisor word).toScaledWord divisor = word ↔ ¬ Drifts d word.toInt.natAbs := by
  have hlow := word.le_toInt
  have hhigh := word.toInt_lt
  rw [toScaledWord_ofScaledWord_of_scales h hdivisor, hrewritten, ← Int32.toInt_inj]
  by_cases hdrifts : Drifts d word.toInt.natAbs
  · -- the next word is in range, since words that drift are small
    have hsmall : word.toInt.natAbs < 2 ^ 23 := hdrifts.2.2.1
    have hnext := natAbs_signed (word.toInt < 0) (word.toInt.natAbs + 1)
    rw [if_pos hdrifts, saturate_of_le (by omega) (by omega)]
    refine iff_of_false (fun heq => ?_) (not_not_intro hdrifts)
    rw [heq] at hnext
    omega
  · rw [if_neg hdrifts, signed_natAbs, saturate_of_le hlow hhigh]
    exact iff_of_true rfl hdrifts

/-- The word that is stored for a number is kept when it is read and written, unless it drifts. -/
theorem toScaledWord_kept_iff (h : Scales d i) (hdivisor : divisor.toInt = d) (x : Single) :
    (ofScaledWord divisor (x.toScaledWord divisor)).toScaledWord divisor = x.toScaledWord divisor ↔
      ¬ Drifts d (x.toScaledWord divisor).toInt.natAbs := by
  rcases toScaledWord_cases h hdivisor x with hzero | hend | ⟨units, hu, hproduct, hwritten⟩
  -- zero, where no number is, and the ends of the range do not drift
  · refine toScaledWord_ofScaledWord_eq_iff h hdivisor ?_
    rw [hzero, if_neg (Magnitude.not_drifts_of_lt (by decide))]
    exact Magnitude.rewritten_of_le h.pos h.le_two_pow (by decide)
  · exact iff_of_true (toScaledWord_ofScaledWord_of_isEnd h hdivisor hend)
      (not_drifts_of_isEnd hend)
  -- everything else is a product, on which dividing and multiplying back is known
  · refine toScaledWord_ofScaledWord_eq_iff h hdivisor ?_
    rw [hwritten]
    exact Magnitude.rewritten_written h hu hproduct

/-- A number that is read from a word and written is read and written again as the same word. -/
theorem toScaledWord_settled (h : Scales d i) (hdivisor : divisor.toInt = d) (word : Int32) :
    (ofScaledWord divisor ((ofScaledWord divisor word).toScaledWord divisor)).toScaledWord divisor
      = (ofScaledWord divisor word).toScaledWord divisor := by
  refine (toScaledWord_kept_iff h hdivisor _).2 ?_
  rw [toScaledWord_ofScaledWord_of_scales h hdivisor]
  rcases natAbs_saturate_signed (word.toInt < 0) (rewritten d word.toInt.natAbs) with hexact | hend
  · rw [hexact]
    exact Magnitude.not_drifts_rewritten h _
  · exact not_drifts_of_isEnd hend

end ChannelPreset.Single
