import ChannelPreset.Proofs.Decimal.Expansion
import ChannelPreset.Proofs.Field.Settling

/-!
# Numbers in a Description

A number that has been read from a word as parts of a power of ten is shown with as many decimal
places as the divisor has zeros. Its magnitude is only the nearest one to the quotient, but for words
up to `2 ^ 22` that is near enough for the text to be the decimal expansion of the quotient itself
(`Encoding.expands_render`). So a description shows the words of its record
(`Record.expands_describe_of_read`).
-/

namespace ChannelPreset

variable {divisor raw : Int32} {k : Nat}

/-- The places of a divisor that is a power of ten are its zeros. -/
theorem Encoding.places_eq (hdivisor : divisor.toInt = 10 ^ k) : places divisor = k := by
  have hpos : 0 < 10 ^ k := Nat.pow_pos (by decide)
  have hmax : max 1 divisor.toInt.toNat = 10 ^ k := by
    have hnat : divisor.toInt.toNat = 10 ^ k := by
      rw [hdivisor]
      exact Int.toNat_natCast (10 ^ k)
    rw [hnat]
    omega
  have hle : (Nat.toDigits 10 (10 ^ k)).length ≤ k + 1 :=
    (Nat.length_toDigits_le_iff (by decide) (Nat.succ_pos k)).2
      (Nat.pow_lt_pow_right (by decide) (Nat.lt_succ_self k))
  have hlt : k < (Nat.toDigits 10 (10 ^ k)).length := by
    rcases Nat.eq_zero_or_pos k with rfl | hk
    · exact Nat.length_toDigits_pos
    · refine Nat.lt_of_not_le fun hshort => ?_
      exact Nat.lt_irrefl _ ((Nat.length_toDigits_le_iff (by decide) hk).1 hshort)
  rw [places, hmax]
  omega

/-- A number that has been read from a word is shown as the word, with the point moved. -/
theorem Single.toFixed_ofScaledWord (hk : k ≤ 9) (hdivisor : divisor.toInt = 10 ^ k)
    (hraw : raw.toInt.natAbs ≤ 2 ^ 22) :
    (ofScaledWord divisor raw).toFixed k
      = Decimal.positional (raw.toInt < 0) k raw.toInt.natAbs := by
  have hpos : 0 < 10 ^ k := Nat.pow_pos (by decide)
  have hle : 10 ^ k ≤ 2 ^ 126 :=
    Nat.le_trans (Nat.pow_le_pow_right (by decide) hk) (by decide)
  have hcast : divisor.toInt = (10 ^ k : Nat) := by rw [hdivisor, Int.natCast_pow]; rfl
  -- the word and the divisor are magnitudes of their own, so only their quotient is rounded, and
  -- then once more to decimal places
  obtain ⟨q, hq, hunits⟩ := exists_ofScaledWord (by rw [hcast, Int.natAbs_natCast]) hpos
    (Magnitude.whole_ten_pow hk) raw
  rw [decide_eq_false (by omega : ¬ divisor.toInt < 0), Bool.xor_false] at hq
  rw [hq, toFixed, hunits, Magnitude.whole_of_le (by omega),
    Magnitude.halfEven_quotient hpos hle hraw]

/-- The text of a number that has been read from a word is the decimal expansion of the word in parts
of the divisor. -/
theorem Encoding.expands_render (hk : k ≤ 9) (hdivisor : divisor.toInt = 10 ^ k)
    (hraw : raw.toInt.natAbs ≤ 2 ^ 22) :
    Decimal.Expands k raw.toInt (render (.scaled divisor) (.ofScaledWord divisor raw)) := by
  rw [render, places_eq hdivisor, Single.toFixed_ofScaledWord hk hdivisor hraw]
  exact Decimal.expands_positional k raw.toInt

/-- A number that has been read stands at its place as a word. -/
theorem Encoding.exists_of_read_scaled {record : Bytes} {offset : Nat} {x : Single}
    (h : read record offset (.scaled divisor) = .ok x) :
    ∃ raw, record.slice? offset 4 = some (.ofWord raw) ∧ x = .ofScaledWord divisor raw := by
  obtain ⟨part, hslice, rfl⟩ := exists_of_map_fixed h
  refine ⟨part.toWord, ?_, rfl⟩
  rw [Bytes.ofWord_toWord (Bytes.length_of_slice? hslice), hslice]

namespace Record

theorem entry_mem_describe {fs : List Field} {f : Field} (hf : f ∈ fs) : f.entry ∈ describe fs :=
  List.mem_mergeSort.2 (List.mem_map_of_mem hf)

/-- A description of what has been read shows what is stored. A number in parts of a power of ten
stands in the record as a word, and the line of its field shows, for a word up to `2 ^ 22` on either
side of zero, the decimal expansion of the word in these parts. Different words are shown by
different texts. -/
theorem expands_describe_of_read (hk : k ≤ 9) (hdivisor : divisor.toInt = 10 ^ k) :
    (∀ (record : Bytes) (fs : List Field), (read (.start record) fs).2.finish = .ok () →
      ∀ f ∈ (read (.start record) fs).1, f.encoding = .scaled divisor →
        f.entry ∈ describe (read (.start record) fs).1 ∧
        ∃ raw, record.slice? f.offset 4 = some (.ofWord raw) ∧
          (raw.toInt.natAbs ≤ 2 ^ 22 → Decimal.Expands k raw.toInt f.entry.value)) ∧
      ∀ a b : Int32, a.toInt.natAbs ≤ 2 ^ 22 → b.toInt.natAbs ≤ 2 ^ 22 →
        Encoding.render (.scaled divisor) (.ofScaledWord divisor a)
          = Encoding.render (.scaled divisor) (.ofScaledWord divisor b) → a = b := by
  refine ⟨fun record fs hfinish f hf hencoding => ⟨entry_mem_describe hf, ?_⟩,
    fun a b ha hb heq => ?_⟩
  · have hread := (read_eq_ok_of_mem (Batch.finish_eq_ok_iff.1 hfinish)).2 f hf
    obtain ⟨⟨name, offset, encoding⟩, value⟩ := f
    obtain rfl : encoding = .scaled divisor := hencoding
    obtain ⟨raw, hslice, rfl⟩ := Encoding.exists_of_read_scaled hread
    exact ⟨raw, hslice, Encoding.expands_render hk hdivisor⟩
  · -- a text is the expansion of one number only
    have hexpands := Encoding.expands_render hk hdivisor ha
    rw [heq] at hexpands
    exact Int32.toInt_inj.1 (hexpands.unique (Encoding.expands_render hk hdivisor hb))

/-- One level in hundredths. -/
def level : List Field := [.blank "Level" 0 .hundredths]

/-- The least word, and the text of its line. -/
theorem expands_describe_of_read_least :
    (100 : Int32).toInt = 10 ^ 2 ∧ Decimal.Expands 2 (-4194304) "-41943.04" ∧
      describe (read (.start (Bytes.ofWord (-4194304))) level).1 = [⟨"Level", 0, "-41943.04"⟩] := by
  have hdivisor : (100 : Int32).toInt = 10 ^ 2 := by decide
  have hdescribe : describe (read (.start (Bytes.ofWord (-4194304))) level).1
      = [⟨"Level", 0, "-41943.04"⟩] := by
    decide +kernel
  refine ⟨hdivisor, ?_, hdescribe⟩
  obtain ⟨hshown, -⟩ := expands_describe_of_read (by decide : 2 ≤ 9) hdivisor
  have hfinish : (read (.start (Bytes.ofWord (-4194304))) level).2.finish = .ok () :=
    Batch.finish_eq_ok_iff.2 (by decide +kernel)
  obtain ⟨hentry, raw, hslice, hexpands⟩ := hshown _ level hfinish _ List.mem_cons_self rfl
  rw [hdescribe, List.mem_singleton] at hentry
  have hword : (Bytes.ofWord (-4194304)).slice? 0 4 = some (.ofWord (-4194304)) := by
    decide +kernel
  have hraw : raw = -4194304 :=
    Bytes.ofWord_inj.1 (Option.some_inj.1 (hslice.symm.trans hword))
  rw [hraw, hentry] at hexpands
  exact hexpands (by decide)

end Record

end ChannelPreset
