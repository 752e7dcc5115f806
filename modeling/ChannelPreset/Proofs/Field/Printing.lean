import ChannelPreset.Field.Basic

/-!
# Values on One Line

A text is printed when each of its characters has a printed form; a line break has none, and no
other control character or separator but the plain space has one. Whatever a value is, the text that
shows it is printed (`Encoding.printed_render`): numbers and switches are shown in plain characters,
and quoted text escapes every character without a printed form (`printed_quoted`).
-/

namespace ChannelPreset

/-- Every character of a text has a printed form. -/
def Printed (text : String) : Prop :=
  ∀ c ∈ text.toList, Unprintable.contains c = false

/-- A character of the ASCII code that is no control. -/
def IsPlain (c : Char) : Prop :=
  0x20 ≤ c.toNat ∧ c.toNat < 0x7f

instance (c : Char) : Decidable (IsPlain c) :=
  inferInstanceAs (Decidable (_ ∧ _))

variable {text front back : String} {c : Char}

theorem Printed.newline_notMem (h : Printed text) : '\n' ∉ text.toList := fun hmem =>
  absurd (h '\n' hmem) (by decide)

theorem printed_append : Printed (front ++ back) ↔ Printed front ∧ Printed back := by
  simp only [Printed, String.toList_append, List.forall_mem_append]

theorem IsPlain.contains_eq (h : IsPlain c) : Unprintable.contains c = false := by
  -- all characters without a printed form lie in front of the plain ones or behind them
  have hranges : ∀ r ∈ Unprintable.ranges, r.2 < 0x20 ∨ 0x7f ≤ r.1 := by decide +kernel
  obtain ⟨hlow, hhigh⟩ := h
  refine List.any_eq_false.2 fun r hr => ?_
  have := hranges r hr
  simp only [Bool.and_eq_true, decide_eq_true_eq]
  omega

theorem printed_of_plain (h : ∀ c ∈ text.toList, IsPlain c) : Printed text :=
  fun c hc => (h c hc).contains_eq

-- texts that are given are checked character by character, not by going through all characters

theorem isPlain_of_all {cs : List Char} (h : cs.all (IsPlain ·) = true) : ∀ c ∈ cs, IsPlain c := by
  simpa only [List.all_eq_true, decide_eq_true_eq] using h

theorem printed_of_all (h : text.toList.all (IsPlain ·) = true) : Printed text :=
  printed_of_plain (isPlain_of_all h)

/-! ## Digits -/

theorem isPlain_of_mem_toDigits {b n : Nat} (hone : 1 < b) (hb : b ≤ 16)
    (hc : c ∈ Nat.toDigits b n) : IsPlain c := by
  have hdigit : ∀ d < 16, IsPlain (Nat.digitChar d) := by decide
  induction n using Nat.strongRecOn with
  | ind n ih =>
    by_cases hn : n < b
    · rw [Nat.toDigits_of_lt_base hn, List.mem_singleton] at hc
      rw [hc]
      exact hdigit n (by omega)
    · rw [Nat.toDigits_of_base_le hone (by omega), List.mem_append, List.mem_singleton] at hc
      rcases hc with hc | rfl
      · exact ih _ (Nat.div_lt_self (by omega) hone) hc
      · exact hdigit _ (Nat.lt_of_lt_of_le (Nat.mod_lt _ (by omega)) hb)

theorem printed_toString_nat (n : Nat) : Printed (toString n) := by
  refine printed_of_plain fun c hc => ?_
  rw [Nat.toString_eq_ofList_toDigits, String.toList_ofList] at hc
  exact isPlain_of_mem_toDigits (by decide) (by decide) hc

theorem printed_toString_int (i : Int) : Printed (toString i) := by
  cases i with
  | ofNat n => exact printed_toString_nat n
  | negSucc n =>
    exact printed_append.2 ⟨printed_of_all (by decide), printed_toString_nat (n + 1)⟩

theorem printed_replicate_zero (n : Nat) : Printed (String.ofList (List.replicate n '0')) := by
  refine printed_of_plain fun c hc => ?_
  rw [String.toList_ofList] at hc
  rw [List.eq_of_mem_replicate hc]
  decide

theorem printed_hex_offset (n : Nat) : Printed (Hex.offset n) := by
  refine printed_append.2 ⟨printed_of_all (by decide), ?_⟩
  rw [Hex.padded, String.ofList_append]
  refine printed_append.2 ⟨printed_replicate_zero _, printed_of_plain fun c hc => ?_⟩
  rw [String.toList_ofList] at hc
  exact isPlain_of_mem_toDigits (by decide) (by decide) hc

theorem printed_sign (negative : Bool) : Printed (Decimal.sign negative) := by
  cases negative <;> exact printed_of_all (by decide)

theorem printed_positional (negative : Bool) (places n : Nat) :
    Printed (Decimal.positional negative places n) := by
  have hwhole := printed_append.2 ⟨printed_sign negative, printed_toString_nat (n / 10 ^ places)⟩
  unfold Decimal.positional
  split
  · exact hwhole
  · refine printed_append.2 ⟨printed_append.2 ⟨hwhole, printed_of_all (by decide)⟩, ?_⟩
    exact printed_append.2 ⟨printed_replicate_zero _, printed_toString_nat _⟩

/-! ## Values -/

theorem printed_nan : Printed "NaN" :=
  printed_of_all (by decide)

theorem printed_infinite (negative : Bool) : Printed (Decimal.sign negative ++ "inf") :=
  printed_append.2 ⟨printed_sign negative, printed_of_all (by decide)⟩

theorem printed_toFixed (places : Nat) (x : Single) : Printed (x.toFixed places) := by
  cases x with
  | nan => exact printed_nan
  | infinite negative => exact printed_infinite negative
  | finite negative m => exact printed_positional _ _ _

theorem printed_toShortest (x : Single) : Printed x.toShortest := by
  cases x with
  | nan => exact printed_nan
  | infinite negative => exact printed_infinite negative
  | finite negative m =>
    rw [Single.toShortest]
    split
    · exact printed_positional _ _ _
    · obtain ⟨n, exponent⟩ := (Single.ReadBack.ofUnits m.units).digits
      exact printed_positional _ _ _

/-- A character is put into quotes as itself only if it has a printed form. -/
theorem encodeChar_cases (d : Char) :
    (∀ c ∈ Quoted.encodeChar d, IsPlain c) ∨
      Quoted.encodeChar d = [d] ∧ Unprintable.contains d = false := by
  unfold Quoted.encodeChar
  -- the six characters with an escape of their own
  iterate 6
    split
    · exact .inl (isPlain_of_all (by decide))
  split
  · refine .inl fun c hc => ?_
    simp only [Quoted.codePoint, List.mem_append] at hc
    have hends : ∀ c ∈ ['\\', 'u', Char.ofNat 0x7b] ++ [Char.ofNat 0x7d], IsPlain c :=
      isPlain_of_all (by decide)
    rcases hc with (hc | hc) | hc
    · exact hends c (List.mem_append_left _ hc)
    · exact isPlain_of_mem_toDigits (by decide) (by decide) hc
    · exact hends c (List.mem_append_right _ hc)
  · rename_i h
    rw [Bool.not_eq_true, Bool.or_eq_false_iff] at h
    exact .inr ⟨rfl, h.2⟩

theorem printed_quoted (text : String) : Printed (Quoted.encode text) := by
  intro c hc
  rw [Quoted.encode, String.toList_ofList, List.mem_append, List.mem_cons, List.mem_flatMap] at hc
  have hquote : Unprintable.contains '\"' = false := IsPlain.contains_eq (by decide)
  rcases hc with (rfl | ⟨d, -, hc⟩) | hc
  · exact hquote
  · rcases encodeChar_cases d with hplain | ⟨hself, hd⟩
    · exact (hplain c hc).contains_eq
    · rw [hself, List.mem_singleton] at hc
      rw [hc, hd]
  · rw [List.mem_singleton.1 hc, hquote]

/-- Every value is shown on one line. -/
theorem Encoding.printed_render (e : Encoding) (v : e.Value) : Printed (e.render v) := by
  cases e with
  | bool => cases v <;> exact printed_of_all (by decide)
  | int32 => exact printed_toString_int v.toInt
  | scaled divisor => exact printed_toFixed _ v
  | delay => exact printed_append.2 ⟨printed_toShortest v, printed_of_all (by decide)⟩
  | eqType => cases v <;> exact printed_of_all (by decide)
  | eqDyn => cases v <;> exact printed_of_all (by decide)
  | text => exact printed_quoted v

end ChannelPreset
