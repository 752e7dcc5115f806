import ChannelPreset.Proofs.Field.Rewriting

/-!
# Finding Fields

A value is found in a record when its bytes lie inside the record and, if it is a text, a zero byte
stands behind its beginning (`Encoding.Found`). Reading gives a value exactly where one is found
(`Encoding.exists_read_iff`), and elsewhere the failure that says what the record lacks
(`Encoding.read_eq_error_iff`). A batch keeps the failure of the first field that is not found
(`Record.failure_read`).

What has been found is still found in the front of the record that it ends in
(`Encoding.read_take`).
-/

namespace ChannelPreset

namespace Bytes

/-- The first zero byte from an offset on stands at `i`. -/
def ZeroFirstAt (bs : Bytes) (offset i : Nat) : Prop :=
  offset ≤ i ∧ bs[i]? = some 0 ∧ ∀ j < i, offset ≤ j → bs[j]? ≠ some 0

instance (bs : Bytes) (offset i : Nat) : Decidable (bs.ZeroFirstAt offset i) := by
  unfold ZeroFirstAt
  infer_instance

variable {bs : Bytes} {offset i : Nat}

theorem ZeroFirstAt.lt_length (h : bs.ZeroFirstAt offset i) : i < bs.length := by
  obtain ⟨-, hzero, -⟩ := h
  exact (List.getElem?_eq_some_iff.1 hzero).1

theorem ZeroFirstAt.unique {j : Nat} (hi : bs.ZeroFirstAt offset i) (hj : bs.ZeroFirstAt offset j) :
    i = j := by
  obtain ⟨hlei, hzeroi, hbeforei⟩ := hi
  obtain ⟨hlej, hzeroj, hbeforej⟩ := hj
  -- neither of the two stands in front of the other
  rcases Nat.lt_trichotomy i j with hlt | heq | hlt
  · exact absurd hzeroi (hbeforej i hlt hlei)
  · exact heq
  · exact absurd hzeroj (hbeforei j hlt hlej)

/-- A text that ends before the bytes do ends at the first zero byte. -/
theorem zeroFirstAt_of_takeWhile
    (h : ((bs.drop offset).takeWhile (· != 0)).length < (bs.drop offset).length) :
    bs.ZeroFirstAt offset (offset + ((bs.drop offset).takeWhile (· != 0)).length) := by
  have htake := take_length_takeWhile h
  -- the bytes up to the end of the text, and the one behind it
  have hbyte : ∀ j ≤ ((bs.drop offset).takeWhile (· != 0)).length,
      bs[offset + j]? = ((bs.drop offset).takeWhile (· != 0) ++ [0])[j]? := by
    intro j hj
    rw [← htake, List.getElem?_take_of_lt (by omega), List.getElem?_drop]
  refine ⟨Nat.le_add_right _ _, ?_, ?_⟩
  · rw [hbyte _ (Nat.le_refl _)]
    simp
  · intro j hj hle hzero
    obtain ⟨n, rfl⟩ := Nat.exists_eq_add_of_le hle
    rw [hbyte n (by omega), List.getElem?_append_left (by omega)] at hzero
    exact ne_zero_of_mem_takeWhile (List.mem_of_getElem? hzero) rfl

/-- A text that begins in front of a zero byte ends before the bytes do. -/
theorem length_takeWhile_lt (hle : offset ≤ i) (hzero : bs[i]? = some 0) :
    ((bs.drop offset).takeWhile (· != 0)).length < (bs.drop offset).length := by
  refine length_takeWhile_lt_iff.2 (List.mem_of_getElem? (i := i - offset) ?_)
  rw [List.getElem?_drop, Nat.add_sub_cancel' hle, hzero]

/-- Where there is a zero byte there is a first one. -/
theorem exists_zeroFirstAt_iff :
    (∃ i, bs.ZeroFirstAt offset i) ↔ ∃ i, offset ≤ i ∧ bs[i]? = some 0 := by
  constructor
  · rintro ⟨i, hle, hzero, -⟩
    exact ⟨i, hle, hzero⟩
  · rintro ⟨i, hle, hzero⟩
    exact ⟨_, zeroFirstAt_of_takeWhile (length_takeWhile_lt hle hzero)⟩

theorem zeroFirstAt_iff :
    bs.ZeroFirstAt offset i ↔
      ((bs.drop offset).takeWhile (· != 0)).length < (bs.drop offset).length ∧
        i = offset + ((bs.drop offset).takeWhile (· != 0)).length := by
  constructor
  · intro h
    have hlt := length_takeWhile_lt h.1 h.2.1
    exact ⟨hlt, h.unique (zeroFirstAt_of_takeWhile hlt)⟩
  · rintro ⟨hlt, rfl⟩
    exact zeroFirstAt_of_takeWhile hlt

/-- What ends in a front of the string is a slice of the front. -/
theorem slice?_take {n width : Nat} {part : Bytes} (h : bs.slice? offset width = some part)
    (hn : offset + width ≤ n) : Bytes.slice? (bs.take n) offset width = some part := by
  obtain ⟨hlen, hfit, hbytes⟩ := slice?_eq_some_iff.1 h
  refine slice?_eq_some_iff.2 ⟨hlen, ?_, fun i hi => ?_⟩
  · rw [List.length_take]
    omega
  · rw [List.getElem?_take_of_lt (by omega), hbytes i hi]

end Bytes

namespace Encoding

/-- The record has the bytes of a value at the offset, and a zero byte behind the beginning of a
text. -/
def Found (record : Bytes) (offset : Nat) (e : Encoding) : Prop :=
  offset + e.leastWidth ≤ record.length ∧
    (e = .text → ∃ i, offset ≤ i ∧ record[i]? = some 0)

/-- Why a value is not found in the record: it begins or ends behind the last byte, or it is a text
without a zero byte behind its beginning. -/
inductive Lacks (record : Bytes) (offset : Nat) (e : Encoding) : FieldError → Prop
  | bytes : record.length < offset + e.leastWidth → (e = .text → record.length < offset) →
      Lacks record offset e (.outOfRange offset e.leastWidth record.length)
  | terminator : e = .text → offset ≤ record.length →
      (∀ i, offset ≤ i → record[i]? ≠ some 0) →
      Lacks record offset e (.unterminatedString offset)

variable {record : Bytes} {offset : Nat} {e : Encoding} {error : FieldError}

theorem map_fixed_eq_error {α : Type} {width : Nat} (make : Bytes → α)
    (h : record.length < offset + width) :
    (fixed record offset width).map make = .error (.outOfRange offset width record.length) := by
  rw [fixed, Bytes.slice?, if_neg (by omega)]
  rfl

theorem exists_map_fixed {α : Type} {width : Nat} (make : Bytes → α)
    (h : offset + width ≤ record.length) :
    ∃ a, (fixed record offset width).map make = .ok a := by
  rw [fixed, Bytes.slice?, if_pos h]
  exact ⟨_, rfl⟩

theorem Found.exists_read (h : e.Found record offset) : ∃ v, e.read record offset = .ok v := by
  obtain ⟨hfit, hzero⟩ := h
  cases e with
  | bool | int32 | scaled _ | delay | eqType | eqDyn => exact exists_map_fixed _ hfit
  | text =>
    obtain ⟨i, hle, hzero⟩ := hzero rfl
    have hlt := Bytes.length_takeWhile_lt hle hzero
    refine ⟨SingleByte.decode ((record.drop offset).takeWhile (· != 0)), ?_⟩
    rw [read, terminated, if_pos (Nat.le_of_succ_le hfit), if_pos hlt]

theorem Lacks.read_eq (h : e.Lacks record offset error) : e.read record offset = .error error := by
  cases h with
  | bytes hlt htext =>
    cases e with
    | bool | int32 | scaled _ | delay | eqType | eqDyn => exact map_fixed_eq_error _ hlt
    | text =>
      have hbehind := htext rfl
      rw [read, terminated, if_neg (by omega)]
      rfl
  | terminator htext hle hnone =>
    subst htext
    have hall : ¬ ((record.drop offset).takeWhile (· != 0)).length < (record.drop offset).length := by
      intro hlt
      obtain ⟨hle', hzero, -⟩ := Bytes.zeroFirstAt_of_takeWhile hlt
      exact hnone _ hle' hzero
    rw [read, terminated, if_pos hle, if_neg hall]

/-- What is not found is lacking for one of the two reasons. -/
theorem exists_lacks (h : ¬ e.Found record offset) : ∃ error, e.Lacks record offset error := by
  by_cases htext : e = .text
  · by_cases hle : offset ≤ record.length
    · refine ⟨_, .terminator htext hle fun i hi hzero => h ⟨?_, fun _ => ⟨i, hi, hzero⟩⟩⟩
      have hlt := (List.getElem?_eq_some_iff.1 hzero).1
      subst htext
      show offset + 1 ≤ record.length
      omega
    · exact ⟨_, .bytes (by omega) fun _ => by omega⟩
  · refine ⟨_, .bytes ?_ fun htext' => absurd htext' htext⟩
    refine Nat.lt_of_not_le fun hfit => ?_
    exact h ⟨hfit, fun htext' => absurd htext' htext⟩

/-- A value is read exactly where it is found. -/
theorem exists_read_iff : (∃ v, e.read record offset = .ok v) ↔ e.Found record offset := by
  refine ⟨fun ⟨v, hv⟩ => ?_, Found.exists_read⟩
  by_cases hfound : e.Found record offset
  · exact hfound
  · obtain ⟨error, hlacks⟩ := exists_lacks hfound
    rw [hlacks.read_eq] at hv
    cases hv

/-- Reading fails for what the record lacks. -/
theorem read_eq_error_iff : e.read record offset = .error error ↔ e.Lacks record offset error := by
  refine ⟨fun h => ?_, Lacks.read_eq⟩
  have hnot : ¬ e.Found record offset := by
    intro hfound
    obtain ⟨v, hv⟩ := hfound.exists_read
    rw [h] at hv
    cases hv
  obtain ⟨error', hlacks⟩ := exists_lacks hnot
  have heq := hlacks.read_eq
  rw [h] at heq
  cases heq
  exact hlacks

/-- A value is read from any front of the record that it ends in. -/
theorem read_take {v : e.Value} {n : Nat} (h : e.read record offset = .ok v)
    (hn : offset + e.span record offset ≤ n) : e.read (record.take n) offset = .ok v := by
  -- all encodings but text read a slice of fixed width
  have hfixed : ∀ {α : Type} {width : Nat} {make : Bytes → α} {a : α},
      (fixed record offset width).map make = .ok a → offset + width ≤ n →
        (fixed (record.take n) offset width).map make = .ok a := by
    intro α width make a hmap hwidth
    obtain ⟨part, hslice, rfl⟩ := exists_of_map_fixed hmap
    rw [fixed, Bytes.slice?_take hslice hwidth]
    rfl
  cases e with
  | bool | int32 | scaled _ | delay | eqType | eqDyn => exact hfixed h hn
  | text =>
    obtain ⟨text, hne, rfl, hslice⟩ := exists_of_terminated h
    have hlen := Bytes.length_of_slice? hslice
    refine terminated_eq_ok hne ?_
    rw [hlen]
    exact Bytes.slice?_take hslice hn

/-- The failure of reading a value, if it is not found. -/
def failure? (record : Bytes) (offset : Nat) (e : Encoding) : Option FieldError :=
  match e.read record offset with
  | .ok _ => none
  | .error error => some error

theorem failure?_eq_none_iff : e.failure? record offset = none ↔ e.Found record offset := by
  rw [← exists_read_iff, failure?]
  cases e.read record offset <;> simp

theorem failure?_eq_some_iff :
    e.failure? record offset = some error ↔ e.Lacks record offset error := by
  rw [← read_eq_error_iff, failure?]
  cases e.read record offset <;> simp

end Encoding

/-- A batch keeps the failure it has, and otherwise takes the one of the read. -/
theorem Batch.failure_read (b : Batch) (e : Encoding) (offset : Nat) :
    (b.read e offset).2.failure = b.failure.or (e.failure? b.record offset) := by
  unfold read Encoding.failure?
  cases hfailure : b.failure with
  | some failure => simp [hfailure]
  | none => cases e.read b.record offset <;> simp [hfailure]

/-- A value that is found leaves a batch without a failure as it was. -/
theorem Batch.exists_read_start {record : Bytes} {offset : Nat} {e : Encoding}
    (h : e.Found record offset) : ∃ v, (start record).read e offset = (v, start record) := by
  obtain ⟨v, hv⟩ := h.exists_read
  exact ⟨v, by simp only [read, start, hv]⟩

/-- A batch keeps the first failure of the fields that are read. -/
theorem Record.failure_read (b : Batch) (fs : List Field) :
    (read b fs).2.failure
      = b.failure.or ((fs.map Field.toDescriptor).findSome? fun d =>
          d.encoding.failure? b.record d.offset) := by
  induction fs generalizing b with
  | nil => simp [read]
  | cons f fs ih =>
    show (read (b.read f.encoding f.offset).2 fs).2.failure = _
    rw [ih, Batch.failure_read, Batch.record_read, Option.or_assoc, List.map_cons,
      List.findSome?_cons]
    cases f.encoding.failure? b.record f.offset <;> simp

end ChannelPreset
