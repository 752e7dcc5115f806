import ChannelPreset.Proofs.Text.RoundTrip
import ChannelPreset.Token.Basic

/-!
# Reading Written Tokens

A token that has been written is read again, whatever stands in front of it and behind it
(`Token.read?_encode_append`). A text comes back cut at its first U+0000 (`Token.kept`); a blob must
be shorter than `2^31` bytes, so that its length has a word (`Token.Bounded`).
-/

namespace ChannelPreset

namespace Cursor

variable {position : Nat} {rest : Bytes}

theorem take_append (bs : Bytes) :
    (⟨position, bs ++ rest⟩ : Cursor).take bs.length = (.ok bs, ⟨position + bs.length, rest⟩) := by
  have hle : bs.length ≤ (⟨position, bs ++ rest⟩ : Cursor).remaining := by
    rw [remaining, List.length_append]
    exact Nat.le_add_right _ _
  rw [take, if_pos hle, advance, List.take_left, List.drop_left]

theorem int32_append (word : Int32) :
    (⟨position, Bytes.ofWord word ++ rest⟩ : Cursor).int32 = (.ok word, ⟨position + 4, rest⟩) := by
  have htake := @take_append position rest (Bytes.ofWord word)
  rw [Bytes.length_ofWord] at htake
  simp only [int32, htake, Bytes.toWord_ofWord]

theorem string_append {text : Bytes} (hne : ∀ b ∈ text, b ≠ 0) :
    (⟨position, text ++ 0 :: rest⟩ : Cursor).string
      = (.ok (Utf8.decode text), ⟨position + (text.length + 1), rest⟩) := by
  have hlt : text.length < (⟨position, text ++ 0 :: rest⟩ : Cursor).remaining := by
    rw [remaining, List.length_append, List.length_cons]
    omega
  -- the terminator is passed with the text
  have hdrop : (text ++ 0 :: rest).drop (text.length + 1) = rest := by
    rw [← List.drop_drop, List.drop_left, List.drop_one, List.tail_cons]
  simp only [string, takeWhile_append_zero hne]
  rw [if_pos hlt, advance, hdrop]

/-- A blob that is read has a length that a word can hold. -/
theorem length_lt_of_bytes {c c' : Cursor} {blob : Bytes} (h : c.bytes = (.ok blob, c')) :
    blob.length < 2 ^ 31 := by
  unfold bytes at h
  split at h
  · rename_i length c₁ _
    -- a blob that is read has the length that is declared in front of it
    have hlt := length.toInt_lt
    split at h
    · unfold take at h
      split at h
      · rename_i hle
        cases h
        rw [List.length_take]
        omega
      · cases h
    · cases h
  · cases h

end Cursor

namespace Token

/-! ## The reads behind a token -/

/-- The tag that announces a token, and the read behind it. -/
theorem read?_eq_some {c c' : Cursor} {token : Token} (h : read? c = some (token, c')) :
    ∃ c₁, c.tag = (token.tag, c₁) ∧
      match token with
      | .int32 value => c₁.int32 = (.ok value, c')
      | .tokenCount count => c₁.int32 = (.ok count, c')
      | .string text => c₁.string = (.ok text, c')
      | .bytes blob => c₁.bytes = (.ok blob, c') := by
  -- a token is made of what one read returns
  have hvalue : ∀ {α : Type} {make : α → Token} {r : Cursor.Read α},
      read?.value make r = some (token, c') → ∃ a, r = (.ok a, c') ∧ token = make a := by
    rintro _ make ⟨_ | a, c₂⟩ hr
    · cases hr
    · cases hr
      exact ⟨a, rfl, rfl⟩
  unfold read? at h
  split at h
  case h_5 | h_6 => cases h
  all_goals
    rename_i c₁ htag
    obtain ⟨a, hread, rfl⟩ := hvalue h
    exact ⟨c₁, htag, hread⟩

section

variable {c c₁ c' : Cursor}

theorem read?_int32 {value : Int32} (htag : c.tag = (.int32, c₁))
    (hread : c₁.int32 = (.ok value, c')) : read? c = some (.int32 value, c') := by
  rw [read?, htag]
  simp only [hread, read?.value]

theorem read?_tokenCount {count : Int32} (htag : c.tag = (.tokenCount, c₁))
    (hread : c₁.int32 = (.ok count, c')) : read? c = some (.tokenCount count, c') := by
  rw [read?, htag]
  simp only [hread, read?.value]

theorem read?_string {text : String} (htag : c.tag = (.string, c₁))
    (hread : c₁.string = (.ok text, c')) : read? c = some (.string text, c') := by
  rw [read?, htag]
  simp only [hread, read?.value]

theorem read?_bytes {blob : Bytes} (htag : c.tag = (.bytes, c₁))
    (hread : c₁.bytes = (.ok blob, c')) : read? c = some (.bytes blob, c') := by
  rw [read?, htag]
  simp only [hread, read?.value]

end

/-! ## Written tokens -/

/-- Blobs have a length that a word can hold. -/
def Bounded : Token → Prop
  | .bytes blob => blob.length < 2 ^ 31
  | _ => True

instance : (token : Token) → Decidable token.Bounded
  | .bytes blob => inferInstanceAs (Decidable (blob.length < 2 ^ 31))
  | .int32 _ | .tokenCount _ | .string _ => inferInstanceAs (Decidable True)

theorem bounded_of_read? {c c' : Cursor} {token : Token} (h : read? c = some (token, c')) :
    token.Bounded := by
  obtain ⟨c₁, -, hread⟩ := read?_eq_some h
  cases token with
  | bytes blob => exact Cursor.length_lt_of_bytes hread
  | int32 | tokenCount | string => trivial

/-- The token that is read where a token has been written. -/
def kept : Token → Token
  | .string text => .string (cutAtNul text)
  | token => token

/-- A length that has a word is read back from it. -/
theorem toInt_lengthWord {blob : Bytes} (h : blob.length < 2 ^ 31) :
    (lengthWord blob).toInt = blob.length := by
  rw [lengthWord, Nat.min_eq_left (by omega), Int32.toInt_ofNat_of_lt h]

theorem bytes_append {blob : Bytes} (h : blob.length < 2 ^ 31) (position : Nat) (rest : Bytes) :
    (⟨position, Bytes.ofWord (lengthWord blob) ++ (blob ++ rest)⟩ : Cursor).bytes
      = (.ok blob, ⟨position + 4 + blob.length, rest⟩) := by
  have hlength := toInt_lengthWord h
  simp only [Cursor.bytes, Cursor.int32_append, hlength, Int.toNat_natCast]
  rw [if_pos (Int.natCast_nonneg _), Cursor.take_append]

theorem ofByte_toByte_tag (token : Token) : Tag.ofByte token.tag.toByte = token.tag := by
  cases token <;> rfl

/-- The tag of a written token announces it. -/
theorem tag_encode_append (token : Token) (position : Nat) (rest : Bytes) :
    (⟨position, token.encode ++ rest⟩ : Cursor).tag
      = (token.tag, ⟨position + 1, token.payload ++ rest⟩) := by
  simp only [encode, List.cons_append, Cursor.tag, ofByte_toByte_tag]

/-- No byte of a written text is zero. -/
theorem ne_zero_of_mem_text {text : String} {b : UInt8}
    (h : b ∈ (beforeNul text).flatMap Utf8.encodeChar) : b ≠ 0 := by
  obtain ⟨c, hc, hb⟩ := List.mem_flatMap.1 h
  exact Utf8.ne_zero_of_mem_encodeChar (ne_nul_of_mem_beforeNul hc) hb

/-- A written token is read again, and the cursor stands behind it. -/
theorem read?_encode_append {token : Token} (h : token.Bounded) (position : Nat) (rest : Bytes) :
    read? ⟨position, token.encode ++ rest⟩
      = some (token.kept, ⟨position + token.encode.length, rest⟩) := by
  -- the tag picks the read, and the read takes the payload
  rw [read?, token.tag_encode_append]
  cases token with
  | int32 word =>
    have hlength : (int32 word).encode.length = 1 + 4 := rfl
    simp only [tag, payload, Cursor.int32_append, read?.value, kept, hlength, Nat.add_assoc]
  | tokenCount count =>
    have hlength : (tokenCount count).encode.length = 1 + 4 := rfl
    simp only [tag, payload, Cursor.int32_append, read?.value, kept, hlength, Nat.add_assoc]
  | string text =>
    simp only [tag, payload, List.append_assoc, List.singleton_append,
      Cursor.string_append fun _ => ne_zero_of_mem_text, read?.value,
      Utf8.decode_flatMap_encodeChar, kept, cutAtNul]
    rw [encode, payload, List.length_cons, List.length_append, List.length_singleton,
      Nat.add_assoc, Nat.add_comm 1]
  | bytes blob =>
    simp only [tag, payload, List.append_assoc, bytes_append h, read?.value, kept]
    rw [encode, payload, List.length_cons, List.length_append, Bytes.length_ofWord,
      show position + 1 + 4 + blob.length = position + (4 + blob.length + 1) by omega]

end Token

end ChannelPreset
