import ChannelPreset.Proofs.Field.Delays
import ChannelPreset.Proofs.Field.Storage

/-!
# Values That Are Settled

A value is settled when its stored form is kept by storing it (`Encoding.Settled`). Switches, words
and texts always are; a number or a delay is settled when it has been read
(`Encoding.settled_of_read`), as long as its divisor is ten or a hundred (`Encoding.Regular`).

What a record holds after a batch without a failure is what stands at the places of its fields
(`Record.read_eq_ok_of_mem`).
-/

namespace ChannelPreset

namespace Encoding

/-- Numbers are stored in tenths or in hundredths. -/
def Regular : Encoding → Prop
  | .scaled divisor => divisor = 10 ∨ divisor = 100
  | _ => True

instance (e : Encoding) : Decidable e.Regular := by
  cases e <;> unfold Regular <;> infer_instance

/-- Storing what is read of a value stores the same bytes. -/
def Settled (e : Encoding) (v : e.Value) : Prop :=
  e.encode (e.stored v) = e.encode v

theorem settled_text (t : String) : Settled .text t := by
  -- a character that is held already is written as the same byte
  have hheld : ((beforeNul t).map SingleByte.held).map SingleByte.encodeChar
      = (beforeNul t).map SingleByte.encodeChar := by
    rw [List.map_map]
    exact List.map_congr_left fun c _ => SingleByte.encodeChar_held c
  show SingleByte.encode _ = SingleByte.encode t
  rw [SingleByte.encode, beforeNul_stored_text, hheld, SingleByte.encode]

/-- A number that has been read from a word is settled. -/
theorem settled_ofScaledWord {divisor : Int32} (h : Regular (.scaled divisor)) (word : Int32) :
    Settled (.scaled divisor) (.ofScaledWord divisor word) := by
  refine congrArg Bytes.ofWord ?_
  rcases h with rfl | rfl
  · exact Single.toScaledWord_settled (Or.inl ⟨rfl, rfl⟩) rfl word
  · exact Single.toScaledWord_settled (Or.inr ⟨rfl, rfl⟩) rfl word

theorem settled_ofDelayWord (word : Int32) : Settled .delay (.ofDelayWord word) :=
  congrArg Bytes.ofWord (Single.toDelayWord_settled word)

/-- A value of fixed width is made of the bytes that stand at its place. -/
theorem exists_of_map_fixed {α : Type} {record : Bytes} {offset width : Nat} {make : Bytes → α}
    {a : α} (h : (fixed record offset width).map make = .ok a) :
    ∃ part, record.slice? offset width = some part ∧ make part = a := by
  unfold fixed at h
  split at h
  · rename_i part hslice
    cases h
    exact ⟨part, hslice, rfl⟩
  · cases h

/-- What has been read is settled. -/
theorem settled_of_read {record : Bytes} {offset : Nat} {e : Encoding} {v : e.Value}
    (he : e.Regular) (h : e.read record offset = .ok v) : e.Settled v := by
  -- only numbers, delays and texts are changed by storing them
  cases e with
  | bool | int32 | eqType | eqDyn => rfl
  | scaled divisor =>
    obtain ⟨part, -, rfl⟩ := exists_of_map_fixed h
    exact settled_ofScaledWord he part.toWord
  | delay =>
    obtain ⟨part, -, rfl⟩ := exists_of_map_fixed h
    exact settled_ofDelayWord part.toWord
  | text => exact settled_text v

/-- What has been read lies inside the record. -/
theorem le_length_of_read {record : Bytes} {offset : Nat} {e : Encoding} {v : e.Value}
    (h : e.read record offset = .ok v) : offset + e.leastWidth ≤ record.length := by
  -- all encodings but text read a slice of fixed width
  have hfixed : ∀ {α : Type} {width : Nat} {make : Bytes → α} {a : α},
      (fixed record offset width).map make = .ok a → offset + width ≤ record.length := by
    intro α width make a hmap
    obtain ⟨part, hslice, -⟩ := exists_of_map_fixed hmap
    exact Bytes.le_of_slice? hslice
  cases e with
  | bool | int32 | scaled _ | delay | eqType | eqDyn => exact hfixed h
  | text =>
    simp only [read, terminated] at h
    split at h
    · split at h
      · rename_i hlt
        rw [List.length_drop] at hlt
        show offset + 1 ≤ _
        omega
      · cases h
    · cases h

end Encoding

namespace Field

/-- Storing what is read of the field stores the same bytes. -/
def Settled (f : Field) : Prop :=
  f.encoding.Settled f.value

end Field

namespace Batch

theorem finish_eq_ok_iff {b : Batch} : b.finish = .ok () ↔ b.failure = none := by
  unfold finish
  cases b.failure with
  | none => exact iff_of_true rfl rfl
  | some failure => exact iff_of_false (fun h => nomatch h) (fun h => nomatch h)

/-- A batch without a failure has read the value, and had none before. -/
theorem read_eq_ok {b : Batch} {e : Encoding} {offset : Nat}
    (h : (b.read e offset).2.failure = none) :
    b.failure = none ∧ e.read b.record offset = .ok (b.read e offset).1 := by
  unfold read at h ⊢
  split at h
  · rename_i failure hfailure
    rw [hfailure] at h
    cases h
  · rename_i hnone
    refine ⟨hnone, ?_⟩
    split at h
    · rename_i value hvalue
      rw [hvalue]
    · cases h

end Batch

namespace Record

/-- A batch without a failure has read every field at its place. -/
theorem read_eq_ok_of_mem {b : Batch} {fs : List Field} (h : (read b fs).2.failure = none) :
    b.failure = none ∧
      ∀ f ∈ (read b fs).1, f.encoding.read b.record f.offset = .ok f.value := by
  induction fs generalizing b with
  | nil => exact ⟨h, fun f hf => nomatch hf⟩
  | cons f fs ih =>
    have hfs : (read (b.read f.encoding f.offset).2 fs).2.failure = none := h
    obtain ⟨hrest, hmem⟩ := ih hfs
    obtain ⟨hnone, hvalue⟩ := Batch.read_eq_ok hrest
    refine ⟨hnone, fun g hg => ?_⟩
    rcases List.mem_cons.1 hg with rfl | hg
    · exact hvalue
    · have hg' := hmem g hg
      rwa [Batch.record_read] at hg'

/-- Fields that are settled are written as what is read of them. -/
theorem encode_map_stored {length : Nat} {fs : List Field} (h : ∀ f ∈ fs, f.Settled) :
    encode length (fs.map Field.stored) = encode length fs := by
  unfold encode write
  -- the induction is over any memory that the fields are written into
  generalize List.replicate length (0 : UInt8) = bs
  induction fs generalizing bs with
  | nil => rfl
  | cons f fs ih =>
    have hf : f.stored.bytes = f.bytes := h f List.mem_cons_self
    rw [List.map_cons, List.foldl_cons, List.foldl_cons, hf]
    exact ih (fun g hg => h g (List.mem_cons_of_mem f hg)) _

end Record

end ChannelPreset
