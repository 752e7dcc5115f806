import ChannelPreset.Proofs.Token.Reading

/-!
# Reading an Extended Stream

What a read does when bytes are added behind the stream. A read that succeeds does the same and
leaves the cursor at the same place (`Cursor.Read.Extends`), and so does one that fails for another
reason than that the stream has ended (`StreamError.isTruncation`): reads look only at the bytes
they pass.
-/

namespace ChannelPreset

/-- Whether an error says that the stream ended too early. -/
def StreamError.isTruncation : StreamError → Bool
  | .tooShort .. | .unterminatedString _ => true
  | .unexpectedTag _ _ found => found == .invalid
  | .invalidLength .. => false

namespace Cursor

/-- The cursor at the same place of a longer string. -/
def extend (c : Cursor) (t : Bytes) : Cursor := ⟨c.position, c.rest ++ t⟩

variable {α : Type} (t : Bytes)

/-- The second read is the first one on a longer string, unless the first failed at the end. -/
def Read.Extends (r r' : Read α) : Prop :=
  match r with
  | (.ok a, c) => r' = (.ok a, c.extend t)
  | (.error e, c) => e.isTruncation = true ∨ r' = (.error e, c.extend t)

theorem extend_advance (c : Cursor) {n : Nat} (h : n ≤ c.remaining) :
    (c.extend t).advance n = (c.advance n).extend t := by
  rw [extend, advance, advance, extend, List.drop_append_of_le_length h]

theorem take_extends (c : Cursor) (n : Nat) : (c.take n).Extends t ((c.extend t).take n) := by
  by_cases h : n ≤ c.remaining
  · have h' : n ≤ (c.extend t).remaining := by
      rw [remaining, extend, List.length_append]
      exact Nat.le_add_right_of_le h
    rw [take, take, if_pos h, if_pos h', extend_advance t c h]
    show (Except.ok ((c.rest ++ t).take n), _) = _
    rw [List.take_append_of_le_length h]
  · rw [take, if_neg h]
    exact Or.inl rfl

theorem int32_extends (c : Cursor) : c.int32.Extends t (c.extend t).int32 := by
  -- a word is its four bytes, however they are read
  have h := take_extends t c 4
  unfold int32
  generalize c.take 4 = r at h
  obtain ⟨_ | bs, c'⟩ := r
  · exact h.imp_right fun h => by rw [h]
  · rw [show (c.extend t).take 4 = (.ok bs, c'.extend t) from h]
    rfl

theorem string_extends (c : Cursor) : c.string.Extends t (c.extend t).string := by
  by_cases h : (c.rest.takeWhile (· != 0)).length < c.remaining
  · -- the terminator has been reached before the added bytes
    have htext : (c.rest ++ t).takeWhile (· != 0) = c.rest.takeWhile (· != 0) := by
      rw [List.takeWhile_append]
      exact if_neg (Nat.ne_of_lt h)
    have h' : (c.rest.takeWhile (· != 0)).length < (c.extend t).remaining := by
      rw [remaining, extend, List.length_append]
      exact Nat.lt_add_right _ h
    rw [string, if_pos h]
    show (c.extend t).string = _
    rw [string, show (c.extend t).rest = c.rest ++ t from rfl, htext, if_pos h',
      extend_advance t c h]
  · rw [string, if_neg h]
    exact Or.inl rfl

theorem bytes_extends (c : Cursor) : c.bytes.Extends t (c.extend t).bytes := by
  have h := int32_extends t c
  unfold bytes
  generalize c.int32 = r at h
  obtain ⟨_ | length, c'⟩ := r
  · exact h.imp_right fun h => by rw [h]
  · rw [show (c.extend t).int32 = (.ok length, c'.extend t) from h]
    by_cases hlength : 0 ≤ length.toInt
    · simp only [if_pos hlength]
      exact take_extends t c' _
    · -- a negative length is refused whatever follows
      simp only [if_neg hlength]
      exact Or.inr rfl

/-- A tag that has been read is read again. -/
theorem tag_extend {c c' : Cursor} {tag : Tag} (h : c.tag = (tag, c')) (hne : tag ≠ .invalid) :
    (c.extend t).tag = (tag, c'.extend t) := by
  -- without a byte to read there is no tag
  obtain ⟨position, _ | ⟨byte, rest⟩⟩ := c
  · cases h
    exact absurd rfl hne
  · cases h
    rfl

theorem expectString_extends (c : Cursor) : c.expectString.Extends t (c.extend t).expectString := by
  cases h : c.tag with
  | mk tag c' =>
    unfold expectString
    by_cases hne : tag = .invalid
    · subst hne
      rw [h]
      exact Or.inl rfl
    · rw [h, tag_extend t h hne]
      cases tag with
      | string => exact string_extends t c'
      | invalid => exact absurd rfl hne
      | int32 | tokenCount | bytes | unknown _ => exact Or.inr rfl

/-! ## Where a token ends -/

/-- A cursor farther on in the same string. -/
def Follows (c c' : Cursor) : Prop :=
  ∃ passed, c.rest = passed ++ c'.rest ∧ c'.position = c.position + passed.length

theorem Follows.refl (c : Cursor) : c.Follows c := ⟨[], rfl, rfl⟩

theorem Follows.trans {c c' c'' : Cursor} (h : c.Follows c') (h' : c'.Follows c'') :
    c.Follows c'' := by
  obtain ⟨passed, hrest, hposition⟩ := h
  obtain ⟨passed', hrest', hposition'⟩ := h'
  refine ⟨passed ++ passed', ?_, ?_⟩
  · rw [hrest, hrest', List.append_assoc]
  · rw [hposition', hposition, List.length_append, Nat.add_assoc]

theorem Follows.position_le {c c' : Cursor} (h : c.Follows c') : c.position ≤ c'.position := by
  obtain ⟨passed, -, hposition⟩ := h
  exact hposition ▸ Nat.le_add_right _ _

/-- A cursor in a string has the bytes in front of it counted. -/
theorem follows_start_iff {bs : Bytes} {c : Cursor} :
    (start bs).Follows c ↔ ∃ passed, bs = passed ++ c.rest ∧ c.position = passed.length := by
  simp [Follows, start]

theorem Follows.rest_eq_drop {bs : Bytes} {c : Cursor} (h : (start bs).Follows c) :
    c.rest = bs.drop c.position := by
  obtain ⟨passed, hbs, hposition⟩ := follows_start_iff.1 h
  rw [hbs, hposition, List.drop_left]

theorem Follows.position_add_remaining {bs : Bytes} {c : Cursor} (h : (start bs).Follows c) :
    c.position + c.remaining = bs.length := by
  obtain ⟨passed, hbs, hposition⟩ := follows_start_iff.1 h
  rw [hbs, hposition, List.length_append, remaining]

/-- No cursor stands behind the end of its string. -/
theorem Follows.le_length {bs : Bytes} {c : Cursor} (h : (start bs).Follows c) :
    c.position ≤ bs.length :=
  h.position_add_remaining ▸ Nat.le_add_right _ _

theorem follows_advance {c : Cursor} {n : Nat} (h : n ≤ c.remaining) : c.Follows (c.advance n) := by
  refine ⟨c.rest.take n, (List.take_append_drop n c.rest).symm, ?_⟩
  rw [List.length_take, show min n c.rest.length = n from Nat.min_eq_left h, advance]

theorem follows_take (c : Cursor) (n : Nat) : c.Follows (c.take n).2 := by
  unfold take
  split
  · rename_i h
    exact follows_advance h
  · exact Follows.refl c

theorem follows_int32 (c : Cursor) : c.Follows c.int32.2 := by
  have h := follows_take c 4
  unfold int32
  generalize c.take 4 = r at h
  obtain ⟨_ | _, _⟩ := r <;> exact h

theorem follows_string (c : Cursor) : c.Follows c.string.2 := by
  simp only [string]
  split
  · rename_i h
    exact follows_advance h
  · exact Follows.refl c

theorem follows_bytes (c : Cursor) : c.Follows c.bytes.2 := by
  have h := follows_int32 c
  unfold bytes
  generalize c.int32 = r at h
  obtain ⟨_ | length, c'⟩ := r
  · exact h
  · simp only
    split
    · exact h.trans (follows_take c' _)
    · exact h

theorem follows_tag (c : Cursor) : c.Follows c.tag.2 := by
  obtain ⟨position, _ | ⟨byte, rest⟩⟩ := c
  · exact Follows.refl _
  · exact ⟨[byte], rfl, rfl⟩

theorem follows_expectString (c : Cursor) : c.Follows c.expectString.2 := by
  have h := follows_tag c
  unfold expectString
  generalize c.tag = r at h
  split
  · exact h.trans (follows_string _)
  · exact h

end Cursor

/-- What stands behind the tag of a token ends farther on in the stream. -/
theorem Token.exists_follows_of_read? {c c' : Cursor} {token : Token}
    (h : read? c = some (token, c')) : ∃ c₁, c.tag = (token.tag, c₁) ∧ c₁.Follows c' := by
  obtain ⟨c₁, htag, hread⟩ := read?_eq_some h
  refine ⟨c₁, htag, ?_⟩
  cases token with
  | int32 value | tokenCount value => simpa [hread] using c₁.follows_int32
  | string text => simpa [hread] using c₁.follows_string
  | bytes blob => simpa [hread] using c₁.follows_bytes

/-- A token ends farther on in the stream. -/
theorem Token.follows_of_read? {c c' : Cursor} {token : Token} (h : read? c = some (token, c')) :
    c.Follows c' := by
  obtain ⟨c₁, htag, hfollows⟩ := exists_follows_of_read? h
  have htag' := c.follows_tag
  rw [htag] at htag'
  exact htag'.trans hfollows

end ChannelPreset
