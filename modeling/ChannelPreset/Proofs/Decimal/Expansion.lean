import ChannelPreset.Decimal.Basic

/-!
# Decimal Expansions

What a decimal text says of a number (`Decimal.Expands`), stated by the characters of the text and
not by how they are made. Positional notation is the expansion of the number it is made of
(`Decimal.expands_positional`), and a text is the expansion of one number only
(`Decimal.Expands.unique`).
-/

namespace ChannelPreset.Decimal

/-- As many digits as there are places, standing for a number. -/
structure Digits (places n : Nat) (digits : List Char) : Prop where
  length_eq : digits.length = places
  isDigit : ∀ c ∈ digits, c.isDigit = true
  value_eq : Nat.ofDigitChars 10 digits 0 = n

/-- The text is the decimal expansion of `i / 10 ^ places`: a minus in front of a negative number,
the digits of the whole part without zeros in front, and behind a point, unless there are no places,
one digit for each place. -/
def Expands (places : Nat) (i : Int) (text : String) : Prop :=
  ∃ fraction, Digits places (i.natAbs % 10 ^ places) fraction ∧
    text.toList = (if i < 0 then ['-'] else []) ++ Nat.toDigits 10 (i.natAbs / 10 ^ places)
      ++ if places = 0 then [] else '.' :: fraction

/-! ## Positional notation -/

theorem toList_padded (width n : Nat) :
    (padded width n).toList
      = List.replicate (width - (Nat.toDigits 10 n).length) '0' ++ Nat.toDigits 10 n := by
  simp only [padded, Nat.toString_eq_ofList_toDigits, String.toList_append, String.toList_ofList,
    String.length_ofList]

/-- A number that has no more digits than places is padded to as many digits. -/
theorem digits_padded {width n : Nat} (hpos : 0 < width) (h : n < 10 ^ width) :
    Digits width n (padded width n).toList := by
  have hlength := (Nat.length_toDigits_le_iff (by decide) hpos).2 h
  rw [toList_padded]
  refine ⟨?_, fun c hc => ?_, ?_⟩
  · rw [List.length_append, List.length_replicate, Nat.sub_add_cancel hlength]
  · rcases List.mem_append.1 hc with hzero | hdigit
    · rw [List.eq_of_mem_replicate hzero]
      rfl
    · exact Nat.isDigit_of_mem_toDigits (by decide) (by decide) hdigit
  · -- zeros in front add nothing to the value
    rw [Nat.ofDigitChars_append, Nat.ofDigitChars_replicate_zero, Nat.mul_zero,
      Nat.ofDigitChars_ten_toDigits]

theorem toList_sign (i : Int) : (sign (i < 0)).toList = if i < 0 then ['-'] else [] := by
  by_cases h : i < 0 <;> simp [sign, h]

/-- Positional notation is an expansion. -/
theorem expands_positional (places : Nat) (i : Int) :
    Expands places i (positional (i < 0) places i.natAbs) := by
  have hwhole : (sign (i < 0) ++ toString (i.natAbs / 10 ^ places)).toList
      = (if i < 0 then ['-'] else []) ++ Nat.toDigits 10 (i.natAbs / 10 ^ places) := by
    rw [String.toList_append, toList_sign, Nat.toString_eq_ofList_toDigits, String.toList_ofList]
  unfold positional
  by_cases hplaces : places = 0
  · refine ⟨[], ⟨hplaces.symm, by simp, ?_⟩, ?_⟩
    · rw [hplaces, Nat.pow_zero, Nat.mod_one, Nat.ofDigitChars_nil]
    · rw [if_pos hplaces, if_pos hplaces, hwhole, List.append_nil]
  · refine ⟨_, digits_padded (Nat.pos_of_ne_zero hplaces)
      (Nat.mod_lt _ (Nat.pow_pos (by decide))), ?_⟩
    rw [if_neg hplaces, if_neg hplaces, String.toList_append, String.toList_append, hwhole,
      List.append_assoc _ ".".toList]
    rfl

/-! ## The number of an expansion -/

theorem toDigits_inj {a b : Nat} (h : Nat.toDigits 10 a = Nat.toDigits 10 b) : a = b := by
  have hvalue := congrArg (Nat.ofDigitChars 10 · 0) h
  simpa only [Nat.ofDigitChars_ten_toDigits] using hvalue

/-- A minus is no digit, so it tells the sign. -/
theorem sign_append_toDigits_inj {i j : Int} {a b : Nat}
    (h : (if i < 0 then ['-'] else []) ++ Nat.toDigits 10 a
      = (if j < 0 then ['-'] else []) ++ Nat.toDigits 10 b) : (i < 0 ↔ j < 0) ∧ a = b := by
  have hminus : ∀ n, '-' ∉ Nat.toDigits 10 n := fun n hmem =>
    absurd (Nat.isDigit_of_mem_toDigits (by decide) (by decide) hmem) (by decide)
  by_cases hi : i < 0 <;> by_cases hj : j < 0
  · rw [if_pos hi, if_pos hj, List.append_cancel_left_eq] at h
    exact ⟨iff_of_true hi hj, toDigits_inj h⟩
  · rw [if_pos hi, if_neg hj, List.nil_append] at h
    exact absurd (h ▸ List.mem_cons_self) (hminus b)
  · rw [if_neg hi, if_pos hj, List.nil_append] at h
    exact absurd (h ▸ List.mem_cons_self) (hminus a)
  · rw [if_neg hi, if_neg hj, List.nil_append, List.nil_append] at h
    exact ⟨iff_of_false hi hj, toDigits_inj h⟩

/-- A text is the expansion of one number only. -/
theorem Expands.unique {places : Nat} {i j : Int} {text : String} (hi : Expands places i text)
    (hj : Expands places j text) : i = j := by
  obtain ⟨fraction, hdigits, htext⟩ := hi
  obtain ⟨fraction', hdigits', htext'⟩ := hj
  -- the parts behind the whole numbers are of one length
  have hlength : (if places = 0 then [] else '.' :: fraction).length
      = (if places = 0 then [] else '.' :: fraction').length := by
    split
    · rfl
    · rw [List.length_cons, List.length_cons, hdigits.length_eq, hdigits'.length_eq]
  obtain ⟨hwhole, hrest⟩ := List.append_inj' (htext.symm.trans htext') hlength
  obtain ⟨hsign, hquotient⟩ := sign_append_toDigits_inj hwhole
  have hremainder : i.natAbs % 10 ^ places = j.natAbs % 10 ^ places := by
    by_cases hplaces : places = 0
    · rw [hplaces, Nat.pow_zero, Nat.mod_one, Nat.mod_one]
    · rw [if_neg hplaces, if_neg hplaces, List.cons.injEq] at hrest
      rw [← hdigits.value_eq, ← hdigits'.value_eq, hrest.2]
  have hnatAbs : i.natAbs = j.natAbs := by
    rw [← Nat.div_add_mod i.natAbs (10 ^ places), hquotient, hremainder, Nat.div_add_mod]
  omega

end ChannelPreset.Decimal
