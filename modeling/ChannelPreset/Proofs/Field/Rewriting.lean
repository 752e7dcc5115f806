import ChannelPreset.Proofs.Field.Settling

/-!
# Rewriting Fields

What a record has at the place of a value that has been read from it and is written again
(`Encoding.encode_of_read`). Words and texts stay as they are, switches become zero or one, and a
number or a delay becomes the word that is stored for what its word stands for.
-/

namespace ChannelPreset.Encoding

/-- How many bytes of a record a value takes at an offset: a text ends behind its terminator. -/
def span (record : Bytes) (offset : Nat) : Encoding → Nat
  | .text => ((record.drop offset).takeWhile (· != 0)).length + 1
  | e => e.leastWidth

/-- The bytes that are written where a value has been read from these. -/
def rewritten : Encoding → Bytes → Bytes
  | .int32, part | .text, part => part
  | .bool, part | .eqType, part | .eqDyn, part => part.map fun v => if v = 0 then 0 else 1
  | .scaled divisor, part =>
    .ofWord ((Single.ofScaledWord divisor part.toWord).toScaledWord divisor)
  | .delay, part => .ofWord (Single.ofDelayWord part.toWord).toDelayWord

variable {record part : Bytes} {offset : Nat} {e : Encoding} {v : e.Value}

/-- A switch is written as zero or one. -/
theorem ofBool_toBool (h : part.length = 1) :
    Bytes.ofBool part.toBool = part.map fun v => if v = 0 then 0 else 1 := by
  obtain ⟨v, rfl⟩ := List.length_eq_one_iff.1 h
  by_cases hv : v = 0 <;> simp [Bytes.ofBool, Bytes.toBool, hv]

/-- A text is made of the bytes in front of the next zero byte. -/
theorem exists_of_terminated {t : String} (h : terminated record offset = .ok t) :
    ∃ text : Bytes, (∀ b ∈ text, b ≠ 0) ∧ t = SingleByte.decode text ∧
      record.slice? offset (span record offset .text) = some (text ++ [0]) := by
  simp only [terminated] at h
  split at h
  · split at h
    · rename_i hlt
      cases h
      refine ⟨(record.drop offset).takeWhile (· != 0), fun _ => ne_zero_of_mem_takeWhile, rfl, ?_⟩
      have htake := take_length_takeWhile hlt
      rw [List.length_drop] at hlt
      rw [Bytes.slice?, span, if_pos (by omega), htake]
    · cases h
  · cases h

/-- A value that has been read is written as its bytes are rewritten. -/
theorem encode_of_read (h : e.read record offset = .ok v) :
    ∃ part, record.slice? offset (e.span record offset) = some part ∧
      e.encode v = e.rewritten part := by
  cases e with
  | int32 =>
    obtain ⟨part, hslice, rfl⟩ := exists_of_map_fixed h
    exact ⟨part, hslice, Bytes.ofWord_toWord (Bytes.length_of_slice? hslice)⟩
  | scaled divisor =>
    obtain ⟨part, hslice, rfl⟩ := exists_of_map_fixed h
    exact ⟨part, hslice, rfl⟩
  | delay =>
    obtain ⟨part, hslice, rfl⟩ := exists_of_map_fixed h
    exact ⟨part, hslice, rfl⟩
  | bool =>
    obtain ⟨part, hslice, rfl⟩ := exists_of_map_fixed h
    exact ⟨part, hslice, ofBool_toBool (Bytes.length_of_slice? hslice)⟩
  | eqType =>
    obtain ⟨part, hslice, rfl⟩ := exists_of_map_fixed h
    refine ⟨part, hslice, ?_⟩
    rw [encode, EqType.toBool_ofBool]
    exact ofBool_toBool (Bytes.length_of_slice? hslice)
  | eqDyn =>
    obtain ⟨part, hslice, rfl⟩ := exists_of_map_fixed h
    refine ⟨part, hslice, ?_⟩
    rw [encode, EqDyn.toBool_ofBool]
    exact ofBool_toBool (Bytes.length_of_slice? hslice)
  | text =>
    obtain ⟨text, hne, rfl, hslice⟩ := exists_of_terminated h
    exact ⟨text ++ [0], hslice, SingleByte.encode_decode hne⟩

/-- A value that has been read takes as many bytes as it took. -/
theorem length_encode_of_read (h : e.read record offset = .ok v) :
    (e.encode v).length = e.span record offset := by
  by_cases he : e = .text
  · subst he
    obtain ⟨part, hslice, hencode⟩ := encode_of_read h
    rw [hencode]
    exact Bytes.length_of_slice? hslice
  · rw [length_encode he]
    cases e <;> first | rfl | exact absurd rfl he

end ChannelPreset.Encoding
