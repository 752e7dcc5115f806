import ChannelPreset.Proofs.Token.Extension

/-!
# Sequences of Tokens

The tokens that stand one behind the other between two places of a stream (`Token.Reads`). Where a
sequence begins and where it ends determine its tokens (`Token.Reads.eq_of_position_eq`), and tokens
that have been written one behind the other are read again as a sequence (`Token.reads_encodeAll`).
-/

namespace ChannelPreset

/-- At the end of a stream there is no tag. -/
theorem Cursor.tag_of_end {c : Cursor} (h : c.rest = []) : c.tag = (.invalid, c) := by
  obtain ⟨position, rest⟩ := c
  cases h
  rfl

namespace Token

/-- Tokens that are read one behind the other, from one place of a stream to another. -/
def Reads : Cursor → List Token → Cursor → Prop
  | c, [], c' => c' = c
  | c, token :: tokens, c' => ∃ d, read? c = some (token, d) ∧ Reads d tokens c'

variable {c c' c'' : Cursor} {token : Token} {tokens tokens' : List Token}

@[simp]
theorem reads_nil : Reads c [] c' ↔ c' = c := Iff.rfl

@[simp]
theorem reads_cons :
    Reads c (token :: tokens) c' ↔ ∃ d, read? c = some (token, d) ∧ Reads d tokens c' := Iff.rfl

instance decidableReads (c : Cursor) : (tokens : List Token) → (c' : Cursor) →
    Decidable (Reads c tokens c')
  | [], c' => inferInstanceAs (Decidable (c' = c))
  | token :: tokens, c' =>
    match h : read? c with
    | none => isFalse (by simp [h])
    | some (token', d) =>
      have := decidableReads d tokens c'
      decidable_of_iff (token' = token ∧ Reads d tokens c') (by simp [h, and_assoc])

/-- A sequence of tokens is read in two parts. -/
theorem reads_append :
    Reads c (tokens ++ tokens') c' ↔ ∃ d, Reads c tokens d ∧ Reads d tokens' c' := by
  induction tokens generalizing c with
  | nil => simp
  | cons token tokens ih =>
    simp only [List.cons_append, reads_cons, ih]
    constructor
    · rintro ⟨d, hread, e, hfront, hback⟩
      exact ⟨e, ⟨d, hread, hfront⟩, hback⟩
    · rintro ⟨e, ⟨d, hread, hfront⟩, hback⟩
      exact ⟨d, hread, e, hfront, hback⟩

/-- The last token of a sequence is read behind the others. -/
theorem reads_concat :
    Reads c (tokens ++ [token]) c' ↔ ∃ d, Reads c tokens d ∧ read? d = some (token, c') := by
  simp [reads_append]

/-! ## Where a sequence ends -/

/-- A token takes bytes. -/
theorem position_lt_of_read? (h : read? c = some (token, c')) : c.position < c'.position := by
  obtain ⟨c₁, htag, passed, -, hpassed⟩ := exists_follows_of_read? h
  -- the tag that announces the token is one byte
  have hposition : c₁.position = c.position + 1 := by
    obtain ⟨position, _ | ⟨byte, rest⟩⟩ := c
    · cases token <;> simp [Cursor.tag, tag] at htag
    · simp only [Cursor.tag, Prod.mk.injEq] at htag
      rw [← htag.2]
  omega

theorem Reads.follows (h : Reads c tokens c') : c.Follows c' := by
  induction tokens generalizing c with
  | nil =>
    rw [reads_nil.1 h]
    exact .refl c
  | cons token tokens ih =>
    obtain ⟨d, hread, htokens⟩ := h
    exact (follows_of_read? hread).trans (ih htokens)

theorem Reads.position_le (h : Reads c tokens c') : c.position ≤ c'.position :=
  h.follows.position_le

/-- The bytes behind a sequence that is read from the beginning of a string. -/
theorem Reads.eq_drop {bs : Bytes} (h : Reads (.start bs) tokens c) :
    c = ⟨c.position, bs.drop c.position⟩ := by
  rw [← h.follows.rest_eq_drop]

/-- Where a sequence begins and where it ends determine its tokens. -/
theorem Reads.eq_of_position_eq (h : Reads c tokens c') (h' : Reads c tokens' c'')
    (hposition : c'.position = c''.position) : tokens = tokens' := by
  induction tokens generalizing c tokens' with
  | nil =>
    cases tokens' with
    | nil => rfl
    | cons token' tokens' =>
      -- a token more would have taken bytes
      obtain ⟨d, hread, htokens'⟩ := h'
      have hlt := position_lt_of_read? hread
      have hle := htokens'.position_le
      rw [reads_nil.1 h] at hposition
      omega
  | cons token tokens ih =>
    obtain ⟨d, hread, htokens⟩ := h
    cases tokens' with
    | nil =>
      have hlt := position_lt_of_read? hread
      have hle := htokens.position_le
      rw [reads_nil.1 h'] at hposition
      omega
    | cons token' tokens' =>
      -- both sequences begin with the token that stands there
      obtain ⟨d', hread', htokens'⟩ := h'
      rw [hread] at hread'
      obtain ⟨rfl, rfl⟩ : token = token' ∧ d = d' := by simpa using hread'
      rw [ih htokens htokens']

/-! ## Written sequences -/

/-- Tokens that have been written are read one behind the other. -/
theorem reads_encodeAll {tokens : List Token} (h : ∀ t ∈ tokens, t.Bounded) (position : Nat)
    (rest : Bytes) :
    Reads ⟨position, encodeAll tokens ++ rest⟩ (tokens.map kept)
      ⟨position + (encodeAll tokens).length, rest⟩ := by
  induction tokens generalizing position with
  | nil => simp [encodeAll]
  | cons token tokens ih =>
    have htoken := read?_encode_append (h token (by simp)) position (encodeAll tokens ++ rest)
    have htokens := ih (fun t ht => h t (by simp [ht])) (position + token.encode.length)
    have hsplit : encodeAll (token :: tokens) = token.encode ++ encodeAll tokens := rfl
    rw [hsplit, List.append_assoc, List.length_append, ← Nat.add_assoc]
    exact ⟨_, htoken, htokens⟩

end Token

end ChannelPreset
