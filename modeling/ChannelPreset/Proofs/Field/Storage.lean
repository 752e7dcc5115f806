import ChannelPreset.Field.Basic
import ChannelPreset.Proofs.Bytes.Access
import ChannelPreset.Proofs.Text.RoundTrip

/-!
# Storing Fields

What a record holds of the values written into it. `Encoding.stored` is the value that one encoding
keeps: switches and words are kept, a number becomes the one its word stands for, and a text loses
what single-byte text cannot hold.

* `Encoding.read_eq_stored`: reading where a value has been written gives its stored value;
* `Record.slice?_write`: fields apart from each other are all found in the record they were
  written into;
* `Record.read_encode`: reading a record that fields were written into gives their stored values.
-/

namespace ChannelPreset

namespace Encoding

/-- The value that is read where a value has been written. -/
def stored : (e : Encoding) → e.Value → e.Value
  | .bool, b => b
  | .int32, word => word
  | .scaled divisor, x => .ofScaledWord divisor (x.toScaledWord divisor)
  | .delay, x => .ofDelayWord x.toDelayWord
  | .eqType, t => t
  | .eqDyn, t => t
  | .text, t => String.ofList ((beforeNul t).map SingleByte.held)

/-- The number of bytes that every value takes, except that a text may take more. -/
def leastWidth : Encoding → Nat
  | .bool | .eqType | .eqDyn | .text => 1
  | .int32 | .scaled _ | .delay => 4

theorem length_encode {e : Encoding} (h : e ≠ .text) (v : e.Value) :
    (e.encode v).length = e.leastWidth := by
  cases e with
  | bool | eqType | eqDyn => rfl
  | int32 | scaled _ | delay => exact Bytes.length_ofWord _
  | text => exact absurd rfl h

/-- How many bytes a value takes. -/
def width : (e : Encoding) → e.Value → Nat
  | .bool, _ | .eqType, _ | .eqDyn, _ => 1
  | .int32, _ | .scaled _, _ | .delay, _ => 4
  | .text, t => SingleByte.length t

theorem length_encode_eq_width (e : Encoding) (v : e.Value) : (e.encode v).length = e.width v := by
  cases e with
  | bool | eqType | eqDyn => rfl
  | int32 | scaled _ | delay => exact Bytes.length_ofWord _
  | text => exact SingleByte.length_encode v

@[simp]
theorem toBool_ofBool (b : Bool) : (Bytes.ofBool b).toBool = b := by cases b <;> rfl

/-- What is made of bytes of a fixed width, where they have been written. -/
theorem map_fixed_eq_ok {α : Type} {record part : Bytes} {offset width : Nat} {make : Bytes → α}
    {a : α} (hlen : part.length = width) (hmake : make part = a)
    (h : record.slice? offset part.length = some part) :
    (fixed record offset width).map make = .ok a := by
  rw [fixed, ← hlen, h]
  exact congrArg Except.ok hmake

/-- A text is read up to its terminator. -/
theorem terminated_eq_ok {record text : Bytes} {offset : Nat} (hne : ∀ b ∈ text, b ≠ 0)
    (h : record.slice? offset (text ++ [0]).length = some (text ++ [0])) :
    terminated record offset = .ok (SingleByte.decode text) := by
  have hfit := Bytes.le_of_slice? h
  -- the bytes from the offset on begin with the text and its terminator
  have hdrop : record.drop offset = text ++ 0 :: (record.drop offset).drop (text.length + 1) := by
    unfold Bytes.slice? at h
    rw [if_pos hfit, Option.some_inj, List.length_append, List.length_singleton] at h
    have hsplit := List.take_append_drop (text.length + 1) (record.drop offset)
    rw [h, List.append_assoc, List.singleton_append] at hsplit
    exact hsplit.symm
  rw [List.length_append] at hfit
  rw [terminated, if_pos (by omega), hdrop]
  simp only [takeWhile_append_zero hne]
  rw [if_pos (by simp)]

/-- Reading where a value has been written gives its stored value. -/
theorem read_eq_stored {record : Bytes} {offset : Nat} (e : Encoding) (v : e.Value)
    (h : record.slice? offset (e.encode v).length = some (e.encode v)) :
    e.read record offset = .ok (e.stored v) := by
  cases e with
  | bool => exact map_fixed_eq_ok rfl (toBool_ofBool v) h
  | int32 => exact map_fixed_eq_ok (Bytes.length_ofWord v) (Bytes.toWord_ofWord v) h
  | scaled divisor =>
    exact map_fixed_eq_ok (Bytes.length_ofWord _)
      (congrArg (Single.ofScaledWord divisor) (Bytes.toWord_ofWord _)) h
  | delay =>
    exact map_fixed_eq_ok (Bytes.length_ofWord _)
      (congrArg Single.ofDelayWord (Bytes.toWord_ofWord _)) h
  | eqType =>
    exact map_fixed_eq_ok rfl
      ((congrArg EqType.ofBool (toBool_ofBool _)).trans (EqType.ofBool_toBool v)) h
  | eqDyn =>
    exact map_fixed_eq_ok rfl
      ((congrArg EqDyn.ofBool (toBool_ofBool _)).trans (EqDyn.ofBool_toBool v)) h
  | text =>
    have hne : ∀ b ∈ (beforeNul v).map SingleByte.encodeChar, b ≠ 0 := by
      intro b hb
      obtain ⟨c, hc, rfl⟩ := List.mem_map.1 hb
      exact SingleByte.encodeChar_ne_zero (ne_nul_of_mem_beforeNul hc)
    rw [read, terminated_eq_ok hne h, SingleByte.decode_map_encodeChar, stored]

/-- The stored text has no U+0000 and as many characters as were stored. -/
theorem beforeNul_stored_text (t : String) :
    beforeNul (stored .text t) = (beforeNul t).map SingleByte.held := by
  refine beforeNul_ofList fun c hc => ?_
  obtain ⟨d, hd, rfl⟩ := List.mem_map.1 hc
  exact SingleByte.held_ne_nul (ne_nul_of_mem_beforeNul hd)

/-- The stored value takes as many bytes as the value. -/
theorem length_encode_stored (e : Encoding) (v : e.Value) :
    (e.encode (e.stored v)).length = (e.encode v).length := by
  by_cases h : e = .text
  · subst h
    rw [encode, encode, SingleByte.length_encode, SingleByte.length_encode, SingleByte.length,
      SingleByte.length, beforeNul_stored_text, List.length_map]
  · -- every other encoding has a fixed width
    rw [length_encode h, length_encode h]

end Encoding

namespace Field

/-- The field with the value that is read where it has been written. -/
def stored (f : Field) : Field :=
  f.withValue (f.encoding.stored f.value)

/-- Two fields that share no byte. -/
def Apart (f g : Field) : Prop :=
  f.stop ≤ g.offset ∨ g.stop ≤ f.offset

/-- How many bytes the value of a field takes. -/
def width (f : Field) : Nat := f.encoding.width f.value

theorem length_bytes (f : Field) : f.bytes.length = f.width :=
  f.encoding.length_encode_eq_width f.value

@[simp]
theorem toDescriptor_stored (f : Field) : f.stored.toDescriptor = f.toDescriptor := rfl

@[simp]
theorem stop_stored (f : Field) : f.stored.stop = f.stop :=
  congrArg (f.offset + ·) (f.encoding.length_encode_stored f.value)

/-- What is read for a field depends on its layout alone. -/
theorem read_congr (b : Batch) {f g : Field} (h : f.toDescriptor = g.toDescriptor) :
    f.read b = g.read b := by
  obtain ⟨d, v⟩ := f
  obtain ⟨d', v'⟩ := g
  cases h
  rfl

end Field

namespace Record

/-- What is read for a record depends on its layout alone. -/
theorem read_congr (b : Batch) {fs gs : List Field}
    (h : fs.map Field.toDescriptor = gs.map Field.toDescriptor) : read b fs = read b gs := by
  induction fs generalizing b gs with
  | nil =>
    rw [List.map_eq_nil_iff.1 h.symm]
  | cons f fs ih =>
    obtain ⟨g, gs', rfl, hg, hgs⟩ := List.map_eq_cons_iff.1 h.symm
    simp only [read, Field.read_congr b hg.symm, ih _ hgs.symm]

/-- Writing fields changes no slice apart from all of them. -/
theorem slice?_write_of_apart {bs : Bytes} {fs : List Field} {start width : Nat}
    (h : ∀ f ∈ fs, start + width ≤ f.offset ∨ f.stop ≤ start) :
    (write bs fs).slice? start width = bs.slice? start width := by
  induction fs generalizing bs with
  | nil => rfl
  | cons f fs ih =>
    refine (ih fun g hg => h g (List.mem_cons_of_mem f hg)).trans ?_
    exact Bytes.slice?_overwrite_of_apart (h f List.mem_cons_self)

/-- Writing fields changes no byte that lies in none of them. -/
theorem getElem?_write_of_apart {bs : Bytes} {fs : List Field} {i : Nat}
    (h : ∀ f ∈ fs, i < f.offset ∨ f.stop ≤ i) : (write bs fs)[i]? = bs[i]? := by
  induction fs generalizing bs with
  | nil => rfl
  | cons f fs ih =>
    refine (ih fun g hg => h g (List.mem_cons_of_mem f hg)).trans ?_
    exact Bytes.getElem?_overwrite_of_apart (h f List.mem_cons_self)

/-- Fields apart from each other are all found in the record they were written into. -/
theorem slice?_write {bs : Bytes} {fs : List Field} (hapart : fs.Pairwise Field.Apart)
    (hfit : ∀ f ∈ fs, f.stop ≤ bs.length) {f : Field} (hf : f ∈ fs) :
    (write bs fs).slice? f.offset f.bytes.length = some f.bytes := by
  induction fs generalizing bs with
  | nil => cases hf
  | cons g fs ih =>
    obtain ⟨hg, hfs⟩ := List.pairwise_cons.1 hapart
    rcases List.mem_cons.1 hf with rfl | hmem
    -- what is written behind the first field is apart from it
    · exact (slice?_write_of_apart (hg · ·)).trans
        (Bytes.slice?_overwrite_self (hfit f List.mem_cons_self))
    · -- writing the first field has not changed how long the record is
      refine ih hfs (fun h hh => ?_) hmem
      rw [Bytes.length_overwrite]
      exact hfit h (List.mem_cons_of_mem g hh)

/-- Fields whose values all stand in a record are read from it as they are. -/
theorem read_eq_self {record : Bytes} {fs : List Field}
    (h : ∀ f ∈ fs, f.encoding.read record f.offset = .ok f.value) :
    read (.start record) fs = (fs, .start record) := by
  induction fs with
  | nil => rfl
  | cons f fs ih =>
    have hf := h f List.mem_cons_self
    have hfs := ih fun g hg => h g (List.mem_cons_of_mem f hg)
    simp only [read, Field.read, Batch.read, Batch.start, hf] at hfs ⊢
    rw [hfs]
    rfl

/-- Fields that are all found in a record are read from it as they are stored. -/
theorem read_eq_map_stored {record : Bytes} {fs : List Field}
    (h : ∀ f ∈ fs, record.slice? f.offset f.bytes.length = some f.bytes) :
    read (.start record) fs = (fs.map Field.stored, .start record) := by
  -- the stored fields have the same layout, and their values stand in the record
  have hlayout : fs.map Field.toDescriptor = (fs.map Field.stored).map Field.toDescriptor := by
    rw [List.map_map]
    exact List.map_congr_left fun f _ => f.toDescriptor_stored.symm
  rw [read_congr _ hlayout]
  refine read_eq_self fun g hg => ?_
  obtain ⟨f, hf, rfl⟩ := List.mem_map.1 hg
  exact f.encoding.read_eq_stored f.value (h f hf)

/-- Reading where fields apart from each other have been written gives their stored values. -/
theorem read_write {bs : Bytes} {fs : List Field} (hapart : fs.Pairwise Field.Apart)
    (hfit : ∀ f ∈ fs, f.stop ≤ bs.length) :
    read (.start (write bs fs)) fs = (fs.map Field.stored, .start (write bs fs)) :=
  read_eq_map_stored fun _ hf => slice?_write hapart hfit hf

/-- Reading a record that fields were written into gives their stored values. -/
theorem read_encode {length : Nat} {fs : List Field} (hapart : fs.Pairwise Field.Apart)
    (hfit : ∀ f ∈ fs, f.stop ≤ length) :
    read (.start (encode length fs)) fs = (fs.map Field.stored, .start (encode length fs)) := by
  refine read_write hapart fun f hf => ?_
  rw [List.length_replicate]
  exact hfit f hf

end Record

end ChannelPreset
