import ChannelPreset.Proofs.Token.RoundTrip

/-!
# Reads One after the Other

The reads of a token stream can be made in any order, and can go on where one of them has failed
(`Cursor.after`). What one of them does is said twice:

* `Cursor.Passes`: the bytes that it passes when it succeeds, and the value that is made of them.
  Nothing else has a part in the value (`Passes.perform_append`, `passes_of_perform`);
* `Cursor.Fails`: the eight ways in which it fails, with the error and the place that it stops at
  (`perform_eq_error_iff`).

However many reads have been made, the cursor stands inside its string and has not gone back
(`Cursor.follows_after`). Together these say what can be relied on after any reads
(`Cursor.perform_of_after`).
-/

namespace ChannelPreset

/-- Where the part of a stream begins that could not be read. -/
def StreamError.offset : StreamError → Nat
  | .tooShort offset _ _ => offset
  | .unterminatedString offset => offset
  | .invalidLength offset _ => offset
  | .unexpectedTag offset _ _ => offset

namespace Cursor

/-- The reads of a token stream. -/
inductive Operation where
  | tag
  | int32
  | string
  | bytes
  | expectString
  deriving DecidableEq

namespace Operation

/-- The values that an operation gives. -/
abbrev Value : Operation → Type
  | .tag => Tag
  | .int32 => Int32
  | .string => String
  | .bytes => Bytes
  | .expectString => String

/-- The value that an operation makes of the bytes that it passes. -/
def valueOf : (op : Operation) → Bytes → op.Value
  | .tag, passed => Tag.read passed 0
  | .int32, passed => passed.toWord
  | .string, passed => Utf8.decode passed.dropLast
  | .bytes, passed => passed.drop 4
  | .expectString, passed => Utf8.decode (passed.drop 1).dropLast

end Operation

/-- The result of an operation. There always is a tag. -/
def perform (c : Cursor) : (op : Operation) → Read op.Value
  | .tag => (.ok c.tag.1, c.tag.2)
  | .int32 => c.int32
  | .string => c.string
  | .bytes => c.bytes
  | .expectString => c.expectString

/-- The cursor behind operations one after the other, whether they fail or not. -/
def after (c : Cursor) (ops : List Operation) : Cursor :=
  ops.foldl (fun c op => (c.perform op).2) c

variable {c c' : Cursor} {op : Operation} {error : StreamError}

/-! ## Where the cursor stands -/

theorem follows_perform (c : Cursor) (op : Operation) : c.Follows (c.perform op).2 := by
  cases op with
  | tag => exact follows_tag c
  | int32 => exact follows_int32 c
  | string => exact follows_string c
  | bytes => exact follows_bytes c
  | expectString => exact follows_expectString c

theorem follows_after (c : Cursor) (ops : List Operation) : c.Follows (c.after ops) := by
  induction ops generalizing c with
  | nil => exact Follows.refl c
  | cons op ops ih => exact (follows_perform c op).trans (ih _)

/-- The bytes between two places of a string. -/
theorem Follows.rest_eq {bs : Bytes} (h : (start bs).Follows c) (h' : c.Follows c') :
    c.rest = bs.extract c.position c'.position ++ c'.rest := by
  obtain ⟨passed, hrest, hposition⟩ := h'
  rw [List.extract_eq_take_drop, ← h.rest_eq_drop, hposition, Nat.add_sub_cancel_left, hrest,
    List.take_left]

/-! ## Reads that succeed -/

/-- The bytes that an operation passes, and the value that it gives for them. -/
inductive Passes : (op : Operation) → Bytes → op.Value → Prop
  | tag (byte : UInt8) : Passes .tag [byte] (.ofByte byte)
  | int32 (word : Int32) : Passes .int32 (.ofWord word) word
  | string {text : Bytes} : (∀ b ∈ text, b ≠ 0) →
      Passes .string (text ++ [0]) (Utf8.decode text)
  | bytes {blob : Bytes} : blob.length < 2 ^ 31 →
      Passes .bytes (.ofWord (Token.lengthWord blob) ++ blob) blob
  | expectString {text : Bytes} : (∀ b ∈ text, b ≠ 0) →
      Passes .expectString (Tag.string.toByte :: (text ++ [0])) (Utf8.decode text)

/-- An expected string is read behind its tag. -/
theorem expectString_of_string {c₁ : Cursor} (h : c.tag = (.string, c₁)) :
    c.expectString = c₁.string := by
  rw [expectString, h]

theorem expectString_of_ne {c₁ : Cursor} {found : Tag} (h : c.tag = (found, c₁))
    (hne : found ≠ .string) :
    c.expectString = (.error (.unexpectedTag c.position .string found), c₁) := by
  rw [expectString, h]
  cases found with
  | string => exact absurd rfl hne
  | int32 | tokenCount | bytes | unknown _ | invalid => rfl

theorem Passes.valueOf_eq {passed : Bytes} {value : op.Value} (h : Passes op passed value) :
    op.valueOf passed = value := by
  cases h with
  | tag byte => rfl
  | int32 word => exact Bytes.toWord_ofWord word
  | string _ | expectString _ => simp [Operation.valueOf]
  | bytes _ => exact List.drop_left' (Bytes.length_ofWord _)

/-- The value is the same wherever the bytes stand and whatever follows. -/
theorem Passes.perform_append {passed : Bytes} {value : op.Value} (h : Passes op passed value)
    (position : Nat) (rest : Bytes) :
    (⟨position, passed ++ rest⟩ : Cursor).perform op
      = (.ok value, ⟨position + passed.length, rest⟩) := by
  cases h with
  | tag byte => rfl
  | int32 word =>
    rw [Bytes.length_ofWord]
    exact int32_append word
  | string hne =>
    rw [List.append_assoc, List.length_append]
    exact string_append hne
  | bytes hlt =>
    rw [List.append_assoc, List.length_append, Bytes.length_ofWord, ← Nat.add_assoc]
    exact Token.bytes_append hlt position rest
  | @expectString text hne =>
    -- the text is read behind the tag, which is one byte
    have htag : (⟨position, Tag.string.toByte :: (text ++ [0]) ++ rest⟩ : Cursor).tag
        = (.string, ⟨position + 1, text ++ 0 :: rest⟩) := by
      rw [List.cons_append, List.append_assoc]
      rfl
    rw [perform, expectString_of_string htag, string_append hne, List.length_cons,
      List.length_append, Nat.add_assoc, Nat.add_comm 1]
    rfl

/-- An operation that succeeds has passed such bytes. Only the tag at the end of the stream is read
without passing any. -/
theorem passes_of_perform {value : op.Value} (h : c.perform op = (.ok value, c')) :
    (∃ passed, Passes op passed value ∧ c.rest = passed ++ c'.rest) ∨
      c' = c ∧ op.valueOf [] = value := by
  cases op with
  | tag =>
    obtain ⟨position, _ | ⟨byte, rest⟩⟩ := c
    · cases h
      exact Or.inr ⟨rfl, rfl⟩
    · cases h
      exact Or.inl ⟨[byte], .tag byte, rfl⟩
  | int32 => exact Or.inl ⟨_, .int32 value, eq_append_of_int32 h⟩
  | string =>
    obtain ⟨hrest, rfl⟩ := eq_append_of_string h
    refine Or.inl ⟨_, .string fun _ => ne_zero_of_mem_takeWhile, ?_⟩
    rwa [List.append_assoc]
  | bytes =>
    refine Or.inl ⟨_, .bytes (length_lt_of_bytes h), ?_⟩
    rw [List.append_assoc]
    exact eq_append_of_bytes h
  | expectString =>
    cases htag : c.tag with
    | mk tag c₁ =>
      by_cases hstring : tag = .string
      · subst hstring
        rw [perform, expectString_of_string htag] at h
        obtain ⟨hrest, rfl⟩ := eq_append_of_string h
        refine Or.inl ⟨_, .expectString fun _ => ne_zero_of_mem_takeWhile, ?_⟩
        rw [eq_cons_of_tag htag (by decide), List.cons_append, List.append_assoc]
        exact congrArg _ hrest
      · rw [perform, expectString_of_ne htag hstring] at h
        cases h

/-! ## Reads that fail -/

/-- The word that the next four bytes are. -/
def word (c : Cursor) : Int32 := Bytes.toWord (c.rest.take 4)

/-- The ways in which an operation fails, with the error and the cursor behind it. -/
inductive Fails (c : Cursor) : Operation → StreamError → Cursor → Prop
  | int32 : c.remaining < 4 → Fails c .int32 (.tooShort c.position 4 c.remaining) c
  | string : 0 ∉ c.rest → Fails c .string (.unterminatedString c.position) c
  | length : c.remaining < 4 → Fails c .bytes (.tooShort c.position 4 c.remaining) c
  | negative : 4 ≤ c.remaining → c.word.toInt < 0 →
      Fails c .bytes (.invalidLength c.position c.word) (c.advance 4)
  | blob : 4 ≤ c.remaining → 0 ≤ c.word.toInt → c.remaining < 4 + c.word.toInt.toNat →
      Fails c .bytes (.tooShort (c.position + 4) c.word.toInt.toNat (c.remaining - 4)) (c.advance 4)
  | noTag : c.rest = [] → Fails c .expectString (.unexpectedTag c.position .string .invalid) c
  | otherTag {byte : UInt8} {rest : Bytes} : c.rest = byte :: rest → Tag.ofByte byte ≠ .string →
      Fails c .expectString (.unexpectedTag c.position .string (.ofByte byte)) (c.advance 1)
  | text {rest : Bytes} : c.rest = Tag.string.toByte :: rest → 0 ∉ rest →
      Fails c .expectString (.unterminatedString (c.position + 1)) (c.advance 1)

theorem int32_of_lt (h : c.remaining < 4) :
    c.int32 = (.error (.tooShort c.position 4 c.remaining), c) := by
  rw [int32, take, if_neg (Nat.not_le_of_lt h)]

theorem int32_of_le (h : 4 ≤ c.remaining) : c.int32 = (.ok c.word, c.advance 4) := by
  rw [int32, take, if_pos h]
  rfl

theorem string_eq_error_iff :
    c.string = (.error error, c') ↔
      0 ∉ c.rest ∧ .unterminatedString c.position = error ∧ c = c' := by
  rw [← length_takeWhile_lt_iff]
  simp only [string, remaining]
  by_cases hends : (c.rest.takeWhile (· != 0)).length < c.rest.length
  · simp [hends]
  · simp [hends]

theorem tag_of_cons {byte : UInt8} {rest : Bytes} (h : c.rest = byte :: rest) :
    c.tag = (.ofByte byte, c.advance 1) ∧ (c.advance 1).rest = rest := by
  obtain ⟨position, _⟩ := c
  cases h
  exact ⟨rfl, rfl⟩

theorem fails_of_int32 (h : c.int32 = (.error error, c')) : c.Fails .int32 error c' := by
  by_cases hlt : c.remaining < 4
  · rw [int32_of_lt hlt] at h
    cases h
    exact .int32 hlt
  · rw [int32_of_le (Nat.le_of_not_lt hlt)] at h
    cases h

/-- A blob fails in its length, by its length, or behind it. -/
theorem fails_of_bytes (h : c.bytes = (.error error, c')) : c.Fails .bytes error c' := by
  by_cases hlt : c.remaining < 4
  · rw [bytes, int32_of_lt hlt] at h
    cases h
    exact .length hlt
  · have hle := Nat.le_of_not_lt hlt
    simp only [bytes, int32_of_le hle] at h
    by_cases hnonneg : 0 ≤ c.word.toInt
    · rw [if_pos hnonneg, take, remaining_advance] at h
      split at h
      · cases h
      · rename_i hcut
        cases h
        exact .blob hle hnonneg (by omega)
    · rw [if_neg hnonneg] at h
      cases h
      exact .negative hle (by omega)

/-- An expected string fails for want of a tag, by another tag, or behind its own. -/
theorem fails_of_expectString (h : c.expectString = (.error error, c')) :
    c.Fails .expectString error c' := by
  cases hrest : c.rest with
  | nil =>
    rw [expectString_of_ne (tag_of_end hrest) (by decide)] at h
    cases h
    exact .noTag hrest
  | cons byte rest =>
    obtain ⟨htag, hbehind⟩ := tag_of_cons hrest
    by_cases hstring : Tag.ofByte byte = .string
    · rw [hstring] at htag
      rw [expectString_of_string htag, string_eq_error_iff, hbehind] at h
      obtain ⟨hne, rfl, rfl⟩ := h
      -- only one byte is the tag of a string
      have hbyte := Tag.toByte_ofByte byte
      rw [hstring] at hbyte
      exact .text (hbyte ▸ hrest) hne
    · rw [expectString_of_ne htag hstring] at h
      cases h
      exact .otherTag hrest hstring

/-- Every failure of an operation is one of these. -/
theorem fails_of_perform (h : c.perform op = (.error error, c')) : c.Fails op error c' := by
  cases op with
  | tag => cases h
  | int32 => exact fails_of_int32 h
  | string =>
    obtain ⟨hne, rfl, rfl⟩ := string_eq_error_iff.1 h
    exact .string hne
  | bytes => exact fails_of_bytes h
  | expectString => exact fails_of_expectString h

theorem Fails.perform_eq (h : c.Fails op error c') : c.perform op = (.error error, c') := by
  cases h with
  | int32 hlt => exact int32_of_lt hlt
  | string hne => exact string_eq_error_iff.2 ⟨hne, rfl, rfl⟩
  | length hlt => rw [perform, bytes, int32_of_lt hlt]
  | negative hle hneg =>
    rw [perform, bytes, int32_of_le hle]
    exact if_neg (by omega)
  | blob hle hnonneg hcut =>
    simp only [perform, bytes, int32_of_le hle]
    rw [if_pos hnonneg, take, remaining_advance, if_neg (by omega)]
    rfl
  | noTag hrest => exact expectString_of_ne (tag_of_end hrest) (by decide)
  | otherTag hrest hne => exact expectString_of_ne (tag_of_cons hrest).1 hne
  | text hrest hne =>
    obtain ⟨htag, hbehind⟩ := tag_of_cons hrest
    rw [perform, expectString_of_string htag, string_eq_error_iff, hbehind]
    exact ⟨hne, rfl, rfl⟩

theorem perform_eq_error_iff : c.perform op = (.error error, c') ↔ c.Fails op error c' :=
  ⟨fails_of_perform, Fails.perform_eq⟩

namespace Fails

theorem position_of_word_or_string (h : c.Fails op error c') (hop : op = .int32 ∨ op = .string) :
    c'.position = c.position := by
  rcases hop with rfl | rfl
  · cases h
    rfl
  · cases h
    rfl

/-- A blob that fails has passed its length, if that could be read. -/
theorem position_of_bytes (h : c.Fails .bytes error c') :
    (c.remaining < 4 → c'.position = c.position) ∧
      (4 ≤ c.remaining → c'.position = c.position + 4) := by
  cases h with
  | length hlt => exact ⟨fun _ => rfl, fun hle => absurd hlt (Nat.not_lt_of_le hle)⟩
  | negative hle _ | blob hle _ _ =>
    exact ⟨fun hlt => absurd hlt (Nat.not_lt_of_le hle), fun _ => rfl⟩

/-- An expected string that fails has passed a tag, if there is one. -/
theorem position_of_expectString (h : c.Fails .expectString error c') :
    (c.remaining = 0 → c'.position = c.position) ∧
      (0 < c.remaining → c'.position = c.position + 1) := by
  cases h with
  | noTag hrest => simp [remaining, hrest]
  | otherTag hrest _ | text hrest _ => simp [remaining, hrest, advance]

theorem position_le_offset (h : c.Fails op error c') : c.position ≤ error.offset := by
  cases h <;> simp [StreamError.offset]

theorem offset_le_position (h : c.Fails op error c') : error.offset ≤ c'.position := by
  cases h <;> simp [StreamError.offset, advance]

/-- Too few bytes are those that are left behind the offset. -/
theorem of_tooShort {offset needed available : Nat}
    (h : c.Fails op (.tooShort offset needed available) c') :
    offset + available = c.position + c.remaining ∧ available < needed := by
  cases h with
  | int32 hlt | length hlt => exact ⟨rfl, hlt⟩
  | blob hle hnonneg hcut => omega

end Fails

/-! ## Any order of reads -/

/-- Operations are made one after the other on a string, whether they fail or not, and then one
more. The cursor does not go back and stays inside the string, in front of the bytes from its
position on. A value is made of the bytes that have been passed for it; if there are any, it is the
same wherever they stand and whatever follows. The operation fails exactly in the ways of `Fails`.
A word or a string that fails leaves the cursor where it was, a blob behind its length, and an
expected string behind a tag, as far as there are so many bytes. The error tells of a place between
the cursors in front of the operation and behind it; bytes that are too few are all that are left
there, and fewer than are needed. -/
theorem perform_of_after {bs passed : Bytes} {ops : List Operation} {op : Operation}
    {c c' : Cursor} {result : Except StreamError op.Value} (hafter : (start bs).after ops = c)
    (hperform : c.perform op = (result, c'))
    (hpassed : bs.extract c.position c'.position = passed) :
    (c.position ≤ c'.position ∧ c'.position ≤ bs.length ∧
        c'.position + c'.remaining = bs.length ∧ c'.rest = bs.drop c'.position) ∧
      (∀ value, result = .ok value →
        value = op.valueOf passed ∧
          (passed ≠ [] → ∀ position rest,
            (⟨position, passed ++ rest⟩ : Cursor).perform op
              = (.ok value, ⟨position + passed.length, rest⟩))) ∧
      (∀ error, result = .error error ↔ c.Fails op error c') ∧
      ∀ error, result = .error error →
        (op = .int32 ∨ op = .string → c'.position = c.position) ∧
        (op = .bytes → (c.remaining < 4 → c'.position = c.position) ∧
          (4 ≤ c.remaining → c'.position = c.position + 4)) ∧
        (op = .expectString → (c.remaining = 0 → c'.position = c.position) ∧
          (0 < c.remaining → c'.position = c.position + 1)) ∧
        (c.position ≤ error.offset ∧ error.offset ≤ c'.position ∧ error.offset ≤ bs.length) ∧
        ∀ offset needed available, error = .tooShort offset needed available →
          offset + available = bs.length ∧ available < needed := by
  -- the string is passed from its beginning to the cursor, and on to the one behind the operation
  have hc : (start bs).Follows c := hafter ▸ follows_after (start bs) ops
  have hstep : c.Follows c' := by
    have h := follows_perform c op
    rwa [hperform] at h
  have hc' := hc.trans hstep
  have hle := hstep.position_le
  have hlength := hc'.le_length
  refine ⟨⟨hle, hlength, hc'.position_add_remaining, hc'.rest_eq_drop⟩, ?_, fun error => ?_, ?_⟩
  · rintro value rfl
    have hrest := hc.rest_eq hstep
    rw [hpassed] at hrest
    rcases passes_of_perform hperform with ⟨_, hpasses, hrest'⟩ | ⟨rfl, hvalue⟩
    · rw [hrest, List.append_cancel_right_eq] at hrest'
      subst hrest'
      exact ⟨hpasses.valueOf_eq.symm, fun _ => hpasses.perform_append⟩
    · -- no byte lies between a place and itself
      have hnone : passed = [] := by simpa using hrest
      subst hnone
      exact ⟨hvalue.symm, fun hne => absurd rfl hne⟩
  · rw [← perform_eq_error_iff, hperform, Prod.mk.injEq, and_iff_left rfl]
  · rintro error rfl
    have hfails := perform_eq_error_iff.1 hperform
    refine ⟨hfails.position_of_word_or_string, ?_, ?_, ⟨hfails.position_le_offset,
      hfails.offset_le_position, Nat.le_trans hfails.offset_le_position hlength⟩, ?_⟩
    · rintro rfl
      exact hfails.position_of_bytes
    · rintro rfl
      exact hfails.position_of_expectString
    · rintro offset needed available rfl
      rw [← hc.position_add_remaining]
      exact hfails.of_tooShort

/-- A blob that is said to have five bytes and has one. -/
def cutBlob : Bytes := [0x0d, 5, 0, 0, 0, 0x61]

/-- A string that is expected passes the tag of the blob. The blob then fails behind its length, in
front of the one byte that is left, and where the length begins a text of one character ends. -/
theorem perform_of_after_cutBlob :
    (start cutBlob).after [.expectString] = ⟨1, [5, 0, 0, 0, 0x61]⟩ ∧
      (⟨1, [5, 0, 0, 0, 0x61]⟩ : Cursor).perform .bytes
        = (.error (.tooShort 5 5 1), ⟨5, [0x61]⟩) ∧
      (5 = 1 + 4 ∧ 5 + 1 = cutBlob.length ∧ [0x61] = cutBlob.drop 5) ∧
      (⟨1, [5, 0, 0, 0, 0x61]⟩ : Cursor).perform .string
        = (.ok (String.singleton (Char.ofNat 5)), ⟨3, [0, 0, 0x61]⟩) ∧
      (⟨9, [5, 0, 0xff]⟩ : Cursor).perform .string
        = (.ok (String.singleton (Char.ofNat 5)), ⟨11, [0xff]⟩) := by
  have hafter : (start cutBlob).after [.expectString] = ⟨1, [5, 0, 0, 0, 0x61]⟩ := by rfl
  have hbytes : (⟨1, [5, 0, 0, 0, 0x61]⟩ : Cursor).perform .bytes
      = (.error (.tooShort 5 5 1), ⟨5, [0x61]⟩) := by rfl
  have hstring : (⟨1, [5, 0, 0, 0, 0x61]⟩ : Cursor).perform .string
      = (.ok (String.singleton (Char.ofNat 5)), ⟨3, [0, 0, 0x61]⟩) := by rfl
  obtain ⟨⟨-, -, -, hdrop⟩, -, -, hfailed⟩ := perform_of_after hafter hbytes rfl
  obtain ⟨-, hfour, -, -, hshort⟩ := hfailed _ rfl
  obtain ⟨-, hvalue, -⟩ := perform_of_after hafter hstring rfl
  exact ⟨hafter, hbytes, ⟨(hfour rfl).2 (by decide), (hshort 5 5 1 rfl).1, hdrop⟩, hstring,
    (hvalue _ rfl).2 (by decide) 9 [0xff]⟩

end Cursor

end ChannelPreset
