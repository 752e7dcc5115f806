import ChannelPreset.Text.SingleByte
import ChannelPreset.Text.Utf8

/-!
# Reading Back Written Text

A text that is written and read again is the text that its stored form can hold.

* `Utf8.decode_flatMap_encodeChar`: UTF-8 holds every character;
* `SingleByte.decode_map_encodeChar`: single-byte text holds what `SingleByte.held` keeps of a
  character, and `SingleByte.encode_decode`: it is written again as the bytes it was read from.

No byte of a character other than U+0000 is zero (`Utf8.ne_zero_of_mem_encodeChar`,
`SingleByte.encodeChar_ne_zero`), so a zero byte ends a written text and nothing else does.
-/

namespace ChannelPreset

theorem toNat_byte_ofNat {n : Nat} (h : n < 256) : (UInt8.ofNat n).toNat = n := by
  rw [UInt8.toNat_ofNat', Nat.mod_eq_of_lt h]

/-- The code point of a character is no surrogate. -/
theorem toNat_char_valid (c : Char) :
    c.toNat < 0xd800 ∨ 0xdfff < c.toNat ∧ c.toNat < 0x110000 := c.valid

/-! ## The part in front of the first U+0000 -/

theorem ne_nul_of_mem_beforeNul {text : String} {c : Char} (h : c ∈ beforeNul text) :
    c ≠ Char.ofNat 0 := by
  have hall : ∀ d ∈ beforeNul text, (d != Char.ofNat 0) = true :=
    List.all_eq_true.1 List.all_takeWhile
  simpa using hall c h

/-- A text without U+0000 is kept as a whole. -/
theorem beforeNul_ofList {cs : List Char} (h : ∀ c ∈ cs, c ≠ Char.ofNat 0) :
    beforeNul (String.ofList cs) = cs := by
  have hall : ∀ c ∈ cs, (c != Char.ofNat 0) = true := fun c hc => by simpa using h c hc
  have happend := @List.takeWhile_append_of_pos _ _ cs [] hall
  simpa only [beforeNul, String.toList_ofList, List.append_nil, List.takeWhile_nil] using happend

/-- A text without what stands behind its first U+0000. -/
def cutAtNul (text : String) : String :=
  String.ofList (beforeNul text)

@[simp]
theorem beforeNul_cutAtNul (text : String) : beforeNul (cutAtNul text) = beforeNul text :=
  beforeNul_ofList fun _ => ne_nul_of_mem_beforeNul

theorem toNat_ne_zero_of_ne_nul {c : Char} (h : c ≠ Char.ofNat 0) : c.toNat ≠ 0 := by
  intro h0
  apply h
  rw [← Char.ofNat_toNat c, h0]

theorem ne_zero_of_mem_takeWhile {bs : Bytes} {b : UInt8} (h : b ∈ bs.takeWhile (· != 0)) :
    b ≠ 0 := by
  have hall : ∀ b ∈ bs.takeWhile (· != 0), (b != 0) = true :=
    List.all_eq_true.1 List.all_takeWhile
  simpa using hall b h

/-- A stored text, whose bytes are not zero, is what stands in front of the terminator. -/
theorem takeWhile_append_zero {bs : Bytes} (h : ∀ b ∈ bs, b ≠ 0) (rest : Bytes) :
    (bs ++ 0 :: rest).takeWhile (· != 0) = bs := by
  rw [List.takeWhile_append_of_pos (by simpa using h)]
  simp

/-- Behind a text that ends before the bytes do there is a zero byte. -/
theorem take_length_takeWhile {bs : Bytes} (h : (bs.takeWhile (· != 0)).length < bs.length) :
    bs.take ((bs.takeWhile (· != 0)).length + 1) = bs.takeWhile (· != 0) ++ [0] := by
  induction bs with
  | nil => simp at h
  | cons b bs ih =>
    by_cases hb : b = 0
    · simp [hb]
    · rw [List.takeWhile_cons_of_pos (by simpa using hb)] at h ⊢
      have hshort := Nat.lt_of_succ_lt_succ h
      rw [List.length_cons, List.take_succ_cons, ih hshort, List.cons_append]

/-- A text ends before the bytes do as soon as there is a zero byte. -/
theorem length_takeWhile_lt_iff {bs : Bytes} :
    (bs.takeWhile (· != 0)).length < bs.length ↔ 0 ∈ bs := by
  constructor
  · intro hlt
    have hmem : (0 : UInt8) ∈ bs.take ((bs.takeWhile (· != 0)).length + 1) := by
      rw [take_length_takeWhile hlt]
      simp
    exact List.mem_of_mem_take hmem
  · intro hmem
    -- a text of all bytes would have the zero byte in it
    have hfront := List.takeWhile_prefix (l := bs) (· != 0)
    refine Nat.lt_of_le_of_ne hfront.length_le fun hlength => ?_
    rw [← hfront.eq_of_length hlength] at hmem
    exact ne_zero_of_mem_takeWhile hmem rfl

/-! ## UTF-8 -/

namespace Utf8

theorem toNat_tail (n : Nat) : (encodeChar.tail n).toNat = 0x80 + n % 64 := by
  rw [encodeChar.tail, toNat_byte_ofNat (by omega)]

theorem start_eq_done {b : UInt8} (h : b.toNat < 0x80) : start b = .done (Char.ofNat b.toNat) := by
  grind [start]

theorem start_eq_more_one {b : UInt8} (hlow : 0xc2 ≤ b.toNat) (hhigh : b.toNat < 0xe0) :
    start b = .more ⟨b.toNat - 0xc0, 0x80, 0xbf, 1⟩ := by
  grind [start]

theorem start_eq_more_two {b : UInt8} (hlow : 0xe0 ≤ b.toNat) (hhigh : b.toNat < 0xf0) :
    start b = .more ⟨b.toNat - 0xe0, if b.toNat = 0xe0 then 0xa0 else 0x80,
      if b.toNat = 0xed then 0x9f else 0xbf, 2⟩ := by
  grind [start]

theorem start_eq_more_three {b : UInt8} (hlow : 0xf0 ≤ b.toNat) (hhigh : b.toNat ≤ 0xf4) :
    start b = .more ⟨b.toNat - 0xf0, if b.toNat = 0xf0 then 0x90 else 0x80,
      if b.toNat = 0xf4 then 0x8f else 0xbf, 3⟩ := by
  grind [start]

theorem next_tail_eq_done {s : Partial} {n : Nat} (hlow : s.low ≤ 0x80 + n % 64)
    (hhigh : 0x80 + n % 64 ≤ s.high) (howed : s.owed = 1) :
    s.next (encodeChar.tail n) = .done (Char.ofNat (s.bits * 64 + n % 64)) := by
  grind [Partial.next, toNat_tail]

theorem next_tail_eq_more {s : Partial} {n : Nat} (hlow : s.low ≤ 0x80 + n % 64)
    (hhigh : 0x80 + n % 64 ≤ s.high) (howed : 1 < s.owed) :
    s.next (encodeChar.tail n) = .more ⟨s.bits * 64 + n % 64, 0x80, 0xbf, s.owed - 1⟩ := by
  grind [Partial.next, toNat_tail]

theorem decodeFrom_none_of_done {b : UInt8} {c : Char} (h : start b = .done c) (bs : Bytes) :
    decodeFrom none (b :: bs) = c :: decodeFrom none bs := by
  rw [decodeFrom, h]

theorem decodeFrom_none_of_more {b : UInt8} {s : Partial} (h : start b = .more s) (bs : Bytes) :
    decodeFrom none (b :: bs) = decodeFrom (some s) bs := by
  rw [decodeFrom, h]

theorem decodeFrom_some_of_done {b : UInt8} {c : Char} {s : Partial} (h : s.next b = .done c)
    (bs : Bytes) : decodeFrom (some s) (b :: bs) = c :: decodeFrom none bs := by
  rw [decodeFrom, h]

theorem decodeFrom_some_of_more {b : UInt8} {s s' : Partial} (h : s.next b = .more s')
    (bs : Bytes) : decodeFrom (some s) (b :: bs) = decodeFrom (some s') bs := by
  rw [decodeFrom, h]

/-- The bytes of a character are read as that character, whatever follows them. -/
theorem decodeFrom_encodeChar_append (c : Char) (bs : Bytes) :
    decodeFrom none (encodeChar c ++ bs) = c :: decodeFrom none bs := by
  have hvalid := toNat_char_valid c
  have hself := Char.ofNat_toNat c
  -- only the number of the character matters from here on
  generalize hn : c.toNat = n at hvalid hself
  simp only [encodeChar, hn]
  -- one case for each number of bytes, with the bits that have been read after each of them
  split
  · rename_i h1
    have hb : (UInt8.ofNat n).toNat = n := toNat_byte_ofNat (by omega)
    have hstart := start_eq_done (b := UInt8.ofNat n) (by omega)
    rw [hb, hself] at hstart
    exact decodeFrom_none_of_done hstart bs
  split
  · rename_i h1 h2
    have hb : (UInt8.ofNat (0xc0 + n / 64)).toNat = 0xc0 + n / 64 :=
      toNat_byte_ofNat (by omega)
    refine (decodeFrom_none_of_more (start_eq_more_one (by omega) (by omega)) _).trans ?_
    refine (decodeFrom_some_of_done (next_tail_eq_done ?_ ?_ rfl) _).trans ?_
    · show 0x80 ≤ _
      omega
    · show _ ≤ 0xbf
      omega
    · rw [hb, show (0xc0 + n / 64 - 0xc0) * 64 + n % 64 = n by omega, hself]
      rfl
  split
  · rename_i h1 h2 h3
    have hb : (UInt8.ofNat (0xe0 + n / 4096)).toNat = 0xe0 + n / 4096 :=
      toNat_byte_ofNat (by omega)
    refine (decodeFrom_none_of_more (start_eq_more_two (by omega) (by omega)) _).trans ?_
    refine (decodeFrom_some_of_more (next_tail_eq_more ?_ ?_ (Nat.lt_succ_self 1)) _).trans ?_
    · show (if _ then 0xa0 else 0x80) ≤ _
      split <;> omega
    · show _ ≤ (if _ then 0x9f else 0xbf)
      split <;> omega
    refine (decodeFrom_some_of_done (next_tail_eq_done ?_ ?_ rfl) _).trans ?_
    · show 0x80 ≤ _
      omega
    · show _ ≤ 0xbf
      omega
    · rw [hb, show ((0xe0 + n / 4096 - 0xe0) * 64 + n / 64 % 64) * 64 + n % 64 = n by omega, hself]
      rfl
  · rename_i h1 h2 h3
    have hb : (UInt8.ofNat (0xf0 + n / 262144)).toNat = 0xf0 + n / 262144 :=
      toNat_byte_ofNat (by omega)
    refine (decodeFrom_none_of_more (start_eq_more_three (by omega) (by omega)) _).trans ?_
    refine (decodeFrom_some_of_more (next_tail_eq_more ?_ ?_ (Nat.lt_add_left 1 (Nat.lt_succ_self 1))) _).trans ?_
    · show (if _ then 0x90 else 0x80) ≤ _
      split <;> omega
    · show _ ≤ (if _ then 0x8f else 0xbf)
      split <;> omega
    refine (decodeFrom_some_of_more (next_tail_eq_more ?_ ?_ (Nat.lt_succ_self 1)) _).trans ?_
    · show 0x80 ≤ _
      omega
    · show _ ≤ 0xbf
      omega
    refine (decodeFrom_some_of_done (next_tail_eq_done ?_ ?_ rfl) _).trans ?_
    · show 0x80 ≤ _
      omega
    · show _ ≤ 0xbf
      omega
    · rw [hb, show (((0xf0 + n / 262144 - 0xf0) * 64 + n / 4096 % 64) * 64 + n / 64 % 64) * 64
        + n % 64 = n by omega, hself]
      rfl

/-- UTF-8 holds every character. -/
theorem decode_flatMap_encodeChar (cs : List Char) :
    decode (cs.flatMap encodeChar) = String.ofList cs := by
  rw [decode]
  -- the induction is on the characters, since the state is empty between two of them
  congr 1
  induction cs with
  | nil => rfl
  | cons c cs ih => rw [List.flatMap_cons, decodeFrom_encodeChar_append, ih]

/-- A character has the bytes that the library gives it. -/
theorem encodeChar_eq_utf8EncodeChar (c : Char) : encodeChar c = String.utf8EncodeChar c := by
  have hvalid := toNat_char_valid c
  have hval : c.val.toNat = c.toNat := rfl
  simp only [encodeChar, encodeChar.tail, String.utf8EncodeChar, hval]
  grind

/-- Bytes are UTF-8 when they are those of some characters. -/
def Valid (bs : Bytes) : Prop :=
  ∃ cs : List Char, bs = cs.flatMap String.utf8EncodeChar

/-- UTF-8 is written again as the bytes it was read from. -/
theorem encode_decode {bs : Bytes} (h : Valid bs) : encode (decode bs) = bs := by
  obtain ⟨cs, rfl⟩ := h
  have hchar : String.utf8EncodeChar = encodeChar :=
    funext fun c => (encodeChar_eq_utf8EncodeChar c).symm
  rw [hchar, decode_flatMap_encodeChar, encode, String.toList_ofList]

/-- Only U+0000 has a zero byte. -/
theorem ne_zero_of_mem_encodeChar {c : Char} (hc : c ≠ Char.ofNat 0) {b : UInt8}
    (h : b ∈ encodeChar c) : b ≠ 0 := by
  have hvalid := toNat_char_valid c
  have hpos := toNat_ne_zero_of_ne_nul hc
  -- a zero byte would have the number zero, which no byte of the character has
  rintro rfl
  have hbyte : ∀ n < 256, n ≠ 0 → (0 : UInt8) ≠ UInt8.ofNat n := by
    intro n hn h0 heq
    have := congrArg UInt8.toNat heq
    rw [toNat_byte_ofNat hn] at this
    exact h0 this.symm
  have htail : ∀ n, (0 : UInt8) ≠ encodeChar.tail n := fun n => hbyte _ (by omega) (by omega)
  simp only [encodeChar] at h
  split at h
  · simp only [List.mem_singleton] at h
    exact hbyte _ (by omega) hpos h
  split at h
  · simp only [List.mem_cons, List.not_mem_nil, or_false, htail] at h
    exact hbyte _ (by omega) (by omega) h
  split at h
  · simp only [List.mem_cons, List.not_mem_nil, or_false, htail] at h
    exact hbyte _ (by omega) (by omega) h
  · simp only [List.mem_cons, List.not_mem_nil, or_false, htail] at h
    exact hbyte _ (by omega) (by omega) h

end Utf8

/-! ## Single-byte text -/

namespace SingleByte

/-- The character that is read for a stored character: itself up to U+00FF, and otherwise a
question mark. -/
def held (c : Char) : Char :=
  if c.toNat < 256 then c else '?'

theorem encodeChar_ne_zero {c : Char} (hc : c ≠ Char.ofNat 0) : encodeChar c ≠ 0 := by
  have hpos := toNat_ne_zero_of_ne_nul hc
  unfold encodeChar
  split
  · rename_i hlt
    intro h
    have := congrArg UInt8.toNat h
    rw [toNat_byte_ofNat hlt] at this
    exact hpos this
  · decide

theorem ofNat_toNat_encodeChar (c : Char) : Char.ofNat (encodeChar c).toNat = held c := by
  unfold encodeChar held
  split
  · rename_i hlt
    rw [toNat_byte_ofNat hlt, Char.ofNat_toNat]
  · rfl

/-- Single-byte text holds what is held of each character. -/
theorem decode_map_encodeChar (cs : List Char) :
    decode (cs.map encodeChar) = String.ofList (cs.map held) := by
  rw [decode, List.map_map]
  congr 1
  exact List.map_congr_left fun c _ => ofNat_toNat_encodeChar c

theorem held_ne_nul {c : Char} (hc : c ≠ Char.ofNat 0) : held c ≠ Char.ofNat 0 := by
  unfold held
  split
  · exact hc
  · decide

/-- What is held of a character is stored as the character is. -/
@[simp]
theorem encodeChar_held (c : Char) : encodeChar (held c) = encodeChar c := by
  by_cases h : c.toNat < 256
  · rw [held, if_pos h]
  · rw [held, if_neg h, encodeChar, encodeChar, if_neg h]
    decide

theorem toNat_ofNat_byte (b : UInt8) : (Char.ofNat b.toNat).toNat = b.toNat := by
  have hlt : b.toNat < 256 := b.toNat_lt
  have hvalid : b.toNat.isValidChar := Or.inl (by omega)
  rw [Char.ofNat, dif_pos hvalid]
  rfl

/-- The character of a byte is stored as that byte. -/
theorem encodeChar_ofNat (b : UInt8) : encodeChar (Char.ofNat b.toNat) = b := by
  have hlt : b.toNat < 256 := b.toNat_lt
  rw [encodeChar, toNat_ofNat_byte, if_pos hlt, UInt8.ofNat_toNat]

/-- A stored text is written again as the bytes it was read from, whatever they are. -/
theorem encode_decode {text : Bytes} (h : ∀ b ∈ text, b ≠ 0) :
    encode (decode text) = text ++ [0] := by
  have hne : ∀ c ∈ text.map fun b => Char.ofNat b.toNat, c ≠ Char.ofNat 0 := by
    intro c hc hnul
    obtain ⟨b, hb, rfl⟩ := List.mem_map.1 hc
    -- only the byte zero is stored for U+0000
    have hzero := congrArg encodeChar hnul
    rw [encodeChar_ofNat] at hzero
    exact h b hb hzero
  rw [encode, decode, beforeNul_ofList hne, List.map_map]
  simp [Function.comp_def, encodeChar_ofNat]

end SingleByte

end ChannelPreset
