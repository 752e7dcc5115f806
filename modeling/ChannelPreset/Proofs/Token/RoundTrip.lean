import ChannelPreset.Proofs.Token.Sequence

/-!
# Round Trip of a Token Stream

Writing and reading undo each other. Tokens that are written are read again up to the end of the
stream, their texts cut at the first U+0000; and tokens that are read are written as the bytes they
were read from, exactly when those of their texts are UTF-8
(`Token.reads_encodeAll_and_eq_take_iff`).
-/

namespace ChannelPreset

namespace Cursor

variable {c c' : Cursor}

theorem eq_append_of_take {n : Nat} {bs : Bytes} (h : c.take n = (.ok bs, c')) :
    bs.length = n ∧ c.rest = bs ++ c'.rest := by
  unfold take at h
  split at h
  · rename_i hle
    cases h
    exact ⟨List.length_take_of_le hle, (List.take_append_drop n c.rest).symm⟩
  · cases h

/-- A word that is read stands in front of the rest. -/
theorem eq_append_of_int32 {word : Int32} (h : c.int32 = (.ok word, c')) :
    c.rest = Bytes.ofWord word ++ c'.rest := by
  unfold int32 at h
  split at h
  · rename_i bs c₁ htake
    cases h
    obtain ⟨hlength, hrest⟩ := eq_append_of_take htake
    rw [Bytes.ofWord_toWord hlength, hrest]
  · cases h

/-- A text that is read stands in front of a zero byte and the rest. -/
theorem eq_append_of_string {text : String} (h : c.string = (.ok text, c')) :
    c.rest = c.rest.takeWhile (· != 0) ++ 0 :: c'.rest ∧
      text = Utf8.decode (c.rest.takeWhile (· != 0)) := by
  simp only [string] at h
  split at h
  · rename_i hlt
    cases h
    refine ⟨?_, rfl⟩
    have hsplit := List.take_append_drop ((c.rest.takeWhile (· != 0)).length + 1) c.rest
    rw [take_length_takeWhile hlt, List.append_assoc, List.singleton_append] at hsplit
    exact hsplit.symm
  · cases h

/-- A blob that is read stands behind its length and in front of the rest. -/
theorem eq_append_of_bytes {blob : Bytes} (h : c.bytes = (.ok blob, c')) :
    c.rest = Bytes.ofWord (Token.lengthWord blob) ++ (blob ++ c'.rest) := by
  unfold bytes at h
  split at h
  · rename_i length c₁ hint32
    have hlt := length.toInt_lt
    split at h
    · rename_i hnonneg
      obtain ⟨hlength, hrest⟩ := eq_append_of_take h
      -- the length that is written is the one that was read
      have hword : Token.lengthWord blob = length := by
        refine Int32.toInt_inj.1 ?_
        rw [Token.toInt_lengthWord (by omega), hlength]
        omega
      rw [hword, eq_append_of_int32 hint32, hrest]
    · cases h
  · cases h

/-- A tag that is read stands in front of the rest. -/
theorem eq_cons_of_tag {tag : Tag} (h : c.tag = (tag, c')) (hne : tag ≠ .invalid) :
    c.rest = tag.toByte :: c'.rest := by
  obtain ⟨position, _ | ⟨byte, rest⟩⟩ := c
  · cases h
    exact absurd rfl hne
  · cases h
    rw [Tag.toByte_ofByte]

/-- The bytes behind the next one, up to a zero byte. -/
def text (c : Cursor) : Bytes :=
  (c.rest.drop 1).takeWhile (· != 0)

end Cursor

namespace Token

variable {c c' : Cursor} {token : Token} {tokens : List Token}

/-- A text that was UTF-8 is written as the bytes it was read from. -/
theorem payload_string_of_valid {text : Bytes} (hne : ∀ b ∈ text, b ≠ 0) (h : Utf8.Valid text) :
    (string (Utf8.decode text)).payload = text ++ [0] := by
  have hencode := Utf8.encode_decode h
  -- a U+0000 in the text would have been a zero byte
  have hnul : ∀ ch ∈ (Utf8.decode text).toList, ch ≠ Char.ofNat 0 := by
    rintro _ hmem rfl
    refine hne 0 ?_ rfl
    rw [← hencode]
    exact List.mem_flatMap.2 ⟨_, hmem, by decide⟩
  have hbefore := beforeNul_ofList hnul
  rw [String.ofList_toList] at hbefore
  rw [payload, hbefore]
  exact congrArg (· ++ [0]) hencode

theorem tag_ne_invalid (token : Token) : token.tag ≠ .invalid := by
  cases token <;> simp [tag]

/-- A token whose text, if it has one, was UTF-8 is written as the bytes it was read from. -/
theorem eq_encode_append_of_read? (h : read? c = some (token, c'))
    (htext : ∀ text, token = .string text → Utf8.Valid c.text) :
    c.rest = token.encode ++ c'.rest := by
  obtain ⟨c₁, htag, hread⟩ := read?_eq_some h
  have hrest := Cursor.eq_cons_of_tag htag token.tag_ne_invalid
  rw [hrest, encode, List.cons_append]
  congr 1
  cases token with
  | int32 value => exact Cursor.eq_append_of_int32 hread
  | tokenCount count => exact Cursor.eq_append_of_int32 hread
  | bytes blob =>
    rw [payload, List.append_assoc]
    exact Cursor.eq_append_of_bytes hread
  | string text =>
    obtain ⟨hbytes, rfl⟩ := Cursor.eq_append_of_string hread
    have hvalid : Utf8.Valid (c₁.rest.takeWhile (· != 0)) := by
      have := htext _ rfl
      rwa [Cursor.text, hrest, List.drop_one, List.tail_cons] at this
    rw [payload_string_of_valid (fun _ => ne_zero_of_mem_takeWhile) hvalid, List.append_assoc,
      List.singleton_append]
    exact hbytes

/-- A text that is written in front of the rest is UTF-8. -/
theorem valid_of_eq_encode_append {text : String} {rest : Bytes}
    (h : c.rest = (string text).encode ++ rest) : Utf8.Valid c.text := by
  have hpayload : c.text = (beforeNul text).flatMap Utf8.encodeChar := by
    rw [Cursor.text, h, encode, List.cons_append, List.drop_one, List.tail_cons, payload,
      List.append_assoc, List.singleton_append]
    exact takeWhile_append_zero (fun _ => ne_zero_of_mem_text) rest
  have hchar : String.utf8EncodeChar = Utf8.encodeChar :=
    funext fun c => (Utf8.encodeChar_eq_utf8EncodeChar c).symm
  exact ⟨beforeNul text, by rw [hpayload, hchar]⟩

/-! ## Sequences -/

/-- Every text among tokens that are read from a place was UTF-8 where it was read. -/
def TextsValid (c : Cursor) (tokens : List Token) : Prop :=
  ∀ front text back d, tokens = front ++ string text :: back → Reads c front d →
    Utf8.Valid d.text

@[simp]
theorem textsValid_nil : TextsValid c [] := by
  simp [TextsValid]

/-- The texts of a sequence are the one of its first token, if that is a text, and those behind it.
-/
theorem textsValid_cons {d : Cursor} (h : read? c = some (token, d)) :
    TextsValid c (token :: tokens) ↔
      (∀ text, token = string text → Utf8.Valid c.text) ∧ TextsValid d tokens := by
  constructor
  · intro hvalid
    refine ⟨?_, fun front text back e htokens hreads => ?_⟩
    · rintro text rfl
      exact hvalid [] text tokens c rfl rfl
    · exact hvalid (token :: front) text back e (by rw [htokens, List.cons_append]) ⟨d, h, hreads⟩
  · rintro ⟨hfirst, hrest⟩ front text back e htokens hreads
    -- the text is the first token or stands among the others
    cases front with
    | nil =>
      obtain ⟨rfl, -⟩ := List.cons.inj htokens
      rw [reads_nil.1 hreads]
      exact hfirst text rfl
    | cons token' front =>
      obtain ⟨rfl, htail⟩ := List.cons.inj htokens
      obtain ⟨d', hread, hreads⟩ := hreads
      rw [h] at hread
      obtain rfl : d = d' := by simpa using hread
      exact hrest front text back e htail hreads

/-- Tokens are written as the bytes they were read from exactly when those of their texts are UTF-8.
-/
theorem Reads.eq_encodeAll_append_iff (h : Reads c tokens c') :
    c.rest = encodeAll tokens ++ c'.rest ↔ TextsValid c tokens := by
  induction tokens generalizing c with
  | nil =>
    rw [reads_nil.1 h]
    simp [encodeAll]
  | cons token tokens ih =>
    obtain ⟨d, hread, htokens⟩ := h
    have hsplit : encodeAll (token :: tokens) = token.encode ++ encodeAll tokens := rfl
    rw [textsValid_cons hread, ← ih htokens, hsplit, List.append_assoc]
    constructor
    · intro hrest
      -- what is written in front of the other tokens is read as the first one
      have hwritten := read?_encode_append (bounded_of_read? hread) c.position
        (encodeAll tokens ++ c'.rest)
      rw [← hrest, hread] at hwritten
      obtain ⟨-, rfl⟩ := Prod.mk.inj (Option.some.inj hwritten)
      refine ⟨?_, rfl⟩
      rintro text rfl
      exact valid_of_eq_encode_append hrest
    · rintro ⟨htext, hrest⟩
      rw [← hrest]
      exact eq_encode_append_of_read? hread htext

/-- Writing and reading undo each other. Tokens that are written are read again, the texts cut at
their first U+0000, up to the end of the stream, where there is no further tag; and tokens that are
read from the front of a stream are written as the bytes they were read from, exactly when those of
their texts are UTF-8. -/
theorem reads_encodeAll_and_eq_take_iff :
    (∀ tokens : List Token, (∀ t ∈ tokens, t.Bounded) →
        ∃ c, Reads (.start (encodeAll tokens)) (tokens.map kept) c ∧
          c.position = (encodeAll tokens).length ∧ c.tag = (.invalid, c)) ∧
      ∀ bs tokens c, Reads (.start bs) tokens c →
        (encodeAll tokens = bs.take c.position ↔ TextsValid (.start bs) tokens) := by
  refine ⟨fun tokens hbounded => ?_, fun bs tokens c hreads => ?_⟩
  · have hreads := reads_encodeAll hbounded 0 []
    rw [List.append_nil] at hreads
    exact ⟨_, hreads, Nat.zero_add _, Cursor.tag_of_end rfl⟩
  · rw [← hreads.eq_encodeAll_append_iff]
    -- reading stops where the bytes that it took end
    have hdrop : c.rest = bs.drop c.position := congrArg Cursor.rest hreads.eq_drop
    have hsplit := List.take_append_drop c.position bs
    constructor
    · intro h
      show bs = _
      rw [h, hdrop, hsplit]
    · intro h
      replace h : bs = encodeAll tokens ++ c.rest := h
      rw [← hsplit, hdrop] at h
      exact (List.append_cancel_right h).symm

/-- One token of each type, with a U+0000 in the text and bytes of tags in the blob. -/
def mixed : List Token :=
  [.int32 (-1), .string (String.ofList ['a', Char.ofNat 0, 'b']), .bytes [0x0a, 0x00, 0x0d],
    .tokenCount 3]

/-- A text of one character in two bytes, an empty blob, and a byte that is no tag. -/
def umlaut : Bytes := [0x0a, 0xc3, 0xa4, 0x00, 0x0d, 0x00, 0x00, 0x00, 0x00, 0x42]

theorem reads_encodeAll_and_eq_take_iff_mixed :
    (∃ c, Reads (.start (encodeAll mixed)) (mixed.map kept) c ∧
        c.position = (encodeAll mixed).length ∧ c.tag = (.invalid, c)) ∧
      Reads (.start umlaut) [.string "ä", .bytes []] ⟨9, [0x42]⟩ ∧
      encodeAll [.string "ä", .bytes []] = umlaut.take 9 ∧
      ¬ TextsValid (.start [0x0a, 0xff, 0x00]) [.string (String.singleton Utf8.replacement)] := by
  obtain ⟨hwritten, hread⟩ := reads_encodeAll_and_eq_take_iff
  have humlaut : Reads (.start umlaut) [.string "ä", .bytes []] ⟨9, [0x42]⟩ := by decide +kernel
  refine ⟨hwritten mixed (by decide +kernel), humlaut, ?_, fun hvalid => ?_⟩
  · refine (hread umlaut _ _ humlaut).2 ?_
    obtain ⟨d, hstring, e, hbytes, -⟩ := humlaut
    rw [textsValid_cons hstring, textsValid_cons hbytes]
    refine ⟨fun _ _ => ⟨['ä'], by decide +kernel⟩, ?_, textsValid_nil⟩
    rintro text ⟨⟩
  · -- the byte that is no UTF-8 is replaced
    have hne := (hread [0x0a, 0xff, 0x00] _ ⟨3, []⟩ (by decide +kernel)).2 hvalid
    exact absurd hne (by decide +kernel)

end Token

end ChannelPreset
