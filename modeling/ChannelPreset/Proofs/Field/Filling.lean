import ChannelPreset.Proofs.Field.Storage

/-!
# Fields over Fields

Fields may be written over each other, and a field that does not fit is dropped. Each byte is then
the one that the last of those fields puts there which fit as a whole and take it, and a byte that
none of them takes is what it was (`Record.getElem?_write`). In a new record such a byte is zero
(`Record.getElem?_encode_and_encode_concat`).
-/

namespace ChannelPreset

namespace Field

/-- The field fits as a whole into a record of this length, and takes its byte `i`. -/
def Fills (f : Field) (length i : Nat) : Prop :=
  f.offset + f.width ≤ length ∧ f.offset ≤ i ∧ i < f.offset + f.width

instance (f : Field) (length i : Nat) : Decidable (f.Fills length i) :=
  inferInstanceAs (Decidable (_ ∧ _ ∧ _))

/-- A byte of a record after one field has been written into it. -/
theorem getElem?_overwrite (f : Field) (bs : Bytes) (i : Nat) :
    (bs.overwrite f.offset f.bytes)[i]? =
      if f.Fills bs.length i then f.bytes[i - f.offset]? else bs[i]? := by
  by_cases hfit : f.offset + f.width ≤ bs.length
  · rw [Bytes.getElem?_overwrite (by rwa [f.length_bytes]), f.length_bytes]
    simp only [Fills, hfit, true_and]
  · rw [Bytes.overwrite_of_lt (by rw [f.length_bytes]; omega), if_neg fun h => hfit h.1]

end Field

namespace Record

/-- The last of the fields that fit as a whole and take the byte `i`. -/
def lastFilling? (length i : Nat) (fs : List Field) : Option Field :=
  fs.findRev? (·.Fills length i)

theorem lastFilling?_cons (length i : Nat) (f : Field) (fs : List Field) :
    lastFilling? length i (f :: fs)
      = (lastFilling? length i fs).or (if f.Fills length i then some f else none) := by
  rw [lastFilling?, List.findRev?, lastFilling?]
  cases fs.findRev? _ <;> simp

/-- A byte of a record after fields have been written into it. -/
theorem getElem?_write (bs : Bytes) (fs : List Field) (i : Nat) :
    (write bs fs)[i]? =
      match lastFilling? bs.length i fs with
      | some f => f.bytes[i - f.offset]?
      | none => bs[i]? := by
  induction fs generalizing bs with
  | nil => rfl
  | cons f fs ih =>
    have hwrite : write bs (f :: fs) = write (bs.overwrite f.offset f.bytes) fs := rfl
    rw [hwrite, ih, Bytes.length_overwrite, lastFilling?_cons]
    -- a field behind this one that takes the byte hides what this one puts there
    cases lastFilling? bs.length i fs with
    | some g => rfl
    | none =>
      simp only [Option.none_or, f.getElem?_overwrite]
      by_cases hfills : f.Fills bs.length i
      · simp only [if_pos hfills]
      · simp only [if_neg hfills]

theorem write_concat (bs : Bytes) (fs : List Field) (f : Field) :
    write bs (fs ++ [f]) = (write bs fs).overwrite f.offset f.bytes := by
  rw [write, List.foldl_append]
  rfl

/-- A new record has the length that is asked for, whatever is written into it. Each of its bytes is
the one that the last of those fields puts there which fit as a whole and take it, and zero if there
is none. A field more that does not fit as a whole changes nothing, one that fits is put there as a
whole, and a text is put there in as many bytes as it is said to take. -/
theorem getElem?_encode_and_encode_concat (length : Nat) (fs : List Field) :
    (encode length fs).length = length ∧
      (∀ i < length, (encode length fs)[i]? =
        match lastFilling? length i fs with
        | some f => f.bytes[i - f.offset]?
        | none => some 0) ∧
      (∀ f : Field, length < f.offset + f.width → encode length (fs ++ [f]) = encode length fs) ∧
      (∀ f : Field, f.offset + f.width ≤ length →
        (encode length (fs ++ [f])).slice? f.offset f.width = some f.bytes) ∧
      ∀ name offset text,
        ({ name, offset, encoding := .text, value := text } : Field).bytes.length
          = SingleByte.length text := by
  have hlength := length_encode length fs
  refine ⟨hlength, fun i hi => ?_, fun f hlt => ?_, fun f hfit => ?_, fun _ _ text => ?_⟩
  · rw [encode, getElem?_write, List.length_replicate, List.getElem?_replicate_of_lt hi]
  · rw [encode, write_concat, ← encode]
    exact Bytes.overwrite_of_lt (by rwa [hlength, f.length_bytes])
  · rw [encode, write_concat, ← encode, ← f.length_bytes]
    exact Bytes.slice?_overwrite_self (by rwa [hlength, f.length_bytes])
  · exact SingleByte.length_encode text

/-- A word, a switch over its third byte, a text with a character that single-byte text does not
hold and a U+0000, and a word of which only two bytes would fit. -/
def layered : List Field :=
  [{ name := "Count", offset := 0, encoding := .int32, value := -1 },
    { name := "On", offset := 2, encoding := .bool, value := true },
    { name := "Name", offset := 3, encoding := .text, value := "é€\x00z" },
    { name := "Color", offset := 6, encoding := .int32, value := 7 }]

/-- A delay that begins two bytes in front of the end of the address space. -/
def stray : Field :=
  { name := "Delay", offset := 18446744073709551614, encoding := .delay, value := .ofInt 1 }

theorem getElem?_encode_and_encode_concat_layered :
    (encode 8 layered).length = 8 ∧ (encode 8 layered)[1]? = some 0xff ∧
      (encode 8 layered)[2]? = some 1 ∧ (encode 8 layered)[3]? = some 0xe9 ∧
      (encode 8 layered)[6]? = some 0 ∧ encode 8 (layered ++ [stray]) = encode 8 layered ∧
      SingleByte.length "é€\x00z" = 3 := by
  obtain ⟨hlength, hbytes, hdropped, -, htext⟩ := getElem?_encode_and_encode_concat 8 layered
  exact ⟨hlength, (hbytes 1 (by decide)).trans (by decide +kernel),
    (hbytes 2 (by decide)).trans (by decide +kernel),
    (hbytes 3 (by decide)).trans (by decide +kernel),
    (hbytes 6 (by decide)).trans (by decide +kernel), hdropped stray (by decide +kernel),
    (htext "Name" 3 "é€\x00z").symm.trans (by decide +kernel)⟩

end Record

end ChannelPreset
