import ChannelPreset.Proofs.Field.Finding
import Mathlib.Data.List.Pairwise

/-!
# The Order of Fields

The order in which the fields of a record are listed makes no difference as long as no two of them
share a byte (`Record.write_describe_read_of_perm`).

* `Record.write_of_perm`: they are written as the same bytes, also where some of them do not fit and
  are dropped;
* `Record.describe_of_perm`: they are described by the same lines, in rising order of the offsets;
* `Record.read_of_finish`: if all of them are read, each gets the value that it gets when it is read
  alone, and whether all of them are read does not depend on the order
  (`Record.finish_read_eq_ok_iff`).

Sorting keeps the order of the lines of one offset in any list of fields
(`Record.filter_describe`).
-/

namespace ChannelPreset

namespace Field

variable {f g : Field}

instance : Std.Symm Apart :=
  ⟨fun _ _ => Or.symm⟩

theorem width_pos (f : Field) : 0 < f.width := by
  obtain ⟨⟨_, _, encoding⟩, value⟩ := f
  cases encoding <;> exact Nat.succ_pos _

/-- Fields that share no byte do not begin at the same offset, since every value takes a byte. -/
theorem Apart.offset_ne (h : f.Apart g) : f.offset ≠ g.offset := by
  have hf := f.width_pos
  have hg := g.width_pos
  simp only [Apart, stop, length_bytes] at h
  omega

/-- The field with the value that is read for it alone. -/
def readAlone (record : Bytes) (f : Field) : Field :=
  (f.read (.start record)).1

@[simp]
theorem toDescriptor_readAlone (record : Bytes) (f : Field) :
    (f.readAlone record).toDescriptor = f.toDescriptor :=
  rfl

theorem read_of_found {record : Bytes} (h : f.encoding.Found record f.offset) :
    f.read (.start record) = (f.readAlone record, .start record) := by
  obtain ⟨v, hv⟩ := Batch.exists_read_start h
  rw [readAlone, read, hv]

end Field

namespace Record

variable {fs gs : List Field} {record : Bytes}

/-! ## Writing -/

theorem write_of_perm (hperm : fs.Perm gs) (hapart : fs.Pairwise Field.Apart) (bs : Bytes) :
    write bs fs = write bs gs := by
  refine hperm.foldl_eq' (fun f hf g hg bs => ?_) bs
  -- a field commutes with itself, and with any other one since they are apart
  by_cases hfg : f = g
  · rw [hfg]
  · exact Bytes.overwrite_comm (hapart.forall hf hg hfg)

/-! ## Describing -/

theorem offset_trans (a b c : Entry) (hab : decide (a.offset ≤ b.offset) = true)
    (hbc : decide (b.offset ≤ c.offset) = true) : decide (a.offset ≤ c.offset) = true := by
  rw [decide_eq_true_eq] at *
  exact Nat.le_trans hab hbc

theorem offset_total (a b : Entry) :
    (decide (a.offset ≤ b.offset) || decide (b.offset ≤ a.offset)) = true := by
  rw [Bool.or_eq_true, decide_eq_true_eq, decide_eq_true_eq]
  exact Nat.le_total a.offset b.offset

theorem perm_describe (fs : List Field) : (describe fs).Perm (fs.map Field.entry) :=
  List.mergeSort_perm _ _

theorem pairwise_le_describe (fs : List Field) :
    (describe fs).Pairwise fun a b => a.offset ≤ b.offset := by
  have hsorted := List.pairwise_mergeSort offset_trans offset_total (fs.map Field.entry)
  exact hsorted.imp of_decide_eq_true

/-- The lines of fields that are apart have rising offsets. -/
theorem pairwise_lt_describe (hapart : fs.Pairwise Field.Apart) :
    (describe fs).Pairwise fun a b => a.offset < b.offset := by
  have hne : (describe fs).Pairwise fun a b => a.offset ≠ b.offset := by
    rw [(perm_describe fs).pairwise_iff Ne.symm, List.pairwise_map]
    exact hapart.imp Field.Apart.offset_ne
  exact ((pairwise_le_describe fs).and hne).imp fun h => Nat.lt_of_le_of_ne h.1 h.2

theorem describe_of_perm (hperm : fs.Perm gs) (hapart : fs.Pairwise Field.Apart) :
    describe fs = describe gs := by
  have hapart' : gs.Pairwise Field.Apart :=
    (hperm.pairwise_iff fun h => symm h).1 hapart
  -- two lists of the same lines with rising offsets are the same list
  refine List.Perm.eq_of_pairwise (fun a b _ _ hab hba => absurd hab (Nat.lt_asymm hba))
    (pairwise_lt_describe hapart) (pairwise_lt_describe hapart') ?_
  exact ((perm_describe fs).trans (hperm.map Field.entry)).trans (perm_describe gs).symm

/-- The lines of one offset keep the order of their fields. -/
theorem filter_describe (fs : List Field) (offset : Nat) :
    (describe fs).filter (·.offset = offset) = (fs.map Field.entry).filter (·.offset = offset) := by
  have hequal : ((fs.map Field.entry).filter (·.offset = offset)).Pairwise
      fun a b => decide (a.offset ≤ b.offset) = true := by
    refine List.pairwise_of_forall_mem_list fun a ha b hb => ?_
    rw [List.mem_filter, decide_eq_true_eq] at ha hb
    exact decide_eq_true (Nat.le_of_eq (ha.2.trans hb.2.symm))
  -- a sorting that is stable keeps lines that are sorted already
  have hkept : ((fs.map Field.entry).filter (·.offset = offset)).Sublist (describe fs) :=
    List.sublist_mergeSort offset_trans offset_total hequal List.filter_sublist
  have hfilter := hkept.filter (·.offset = offset)
  rw [List.filter_filter] at hfilter
  simp only [Bool.and_self] at hfilter
  exact (hfilter.eq_of_length ((perm_describe fs).filter _).length_eq.symm).symm

/-! ## Reading -/

theorem finish_read_eq_ok_iff :
    (read (.start record) fs).2.finish = .ok () ↔
      ∀ f ∈ fs, f.encoding.Found record f.offset := by
  rw [Batch.finish_eq_ok_iff, failure_read]
  simp [Batch.start, Encoding.failure?_eq_none_iff]

theorem read_of_finish (h : (read (.start record) fs).2.finish = .ok ()) :
    (read (.start record) fs).1 = fs.map (Field.readAlone record) := by
  rw [finish_read_eq_ok_iff] at h
  induction fs with
  | nil => rfl
  | cons f fs ih =>
    have hf := Field.read_of_found (h f List.mem_cons_self)
    simp only [read, hf, List.map_cons]
    rw [ih fun g hg => h g (List.mem_cons_of_mem f hg)]

/-- The order of fields that share no byte makes no difference. They are written over any bytes as
the same bytes, they are described by the same lines, which are the lines of the fields by rising
offsets, and in any record they are all found in the one order if they are in the other, and then
each gets one and the same value. Fields that begin at the same offset are described in their order.
-/
theorem write_describe_read_of_perm (hperm : fs.Perm gs)
    (hapart : fs.Pairwise fun f g =>
      f.offset + f.width ≤ g.offset ∨ g.offset + g.width ≤ f.offset) :
    (∀ bs, write bs fs = write bs gs) ∧
      (describe fs = describe gs ∧ (describe fs).Perm (fs.map Field.entry) ∧
        (describe fs).Pairwise fun a b => a.offset < b.offset) ∧
      (∀ record, ((read (.start record) fs).2.finish = .ok () ↔
          (read (.start record) gs).2.finish = .ok ()) ∧
        ((read (.start record) fs).2.finish = .ok () →
          (read (.start record) fs).1 = fs.map (Field.readAlone record) ∧
          (read (.start record) gs).1 = gs.map (Field.readAlone record))) ∧
      ∀ (hs : List Field) (offset : Nat),
        (describe hs).filter (·.offset = offset)
          = (hs.map Field.entry).filter (·.offset = offset) := by
  have hstop : ∀ f : Field, f.offset + f.width = f.stop := fun f =>
    congrArg (f.offset + ·) f.length_bytes.symm
  simp only [hstop] at hapart
  have hfinish : ∀ record, (read (.start record) fs).2.finish = .ok () ↔
      (read (.start record) gs).2.finish = .ok () := by
    intro record
    simp only [finish_read_eq_ok_iff, hperm.mem_iff]
  exact ⟨write_of_perm hperm hapart,
    ⟨describe_of_perm hperm hapart, perm_describe fs, pairwise_lt_describe hapart⟩,
    fun record => ⟨hfinish record, fun h =>
      ⟨read_of_finish h, read_of_finish ((hfinish record).1 h)⟩⟩,
    filter_describe⟩

/-- Fields out of order, of which the name does not fit into seven bytes, and the color lies at the
end of the address space. -/
def scattered : List Field :=
  [{ name := "Name", offset := 5, encoding := .text, value := "é€\x00z" },
    { name := "Level", offset := 1, encoding := .tenths, value := .ofInt (-1) },
    { name := "Color", offset := 18446744073709551615, encoding := .int32, value := 7 },
    { name := "On", offset := 0, encoding := .bool, value := true }]

theorem write_describe_read_of_perm_scattered :
    scattered.Perm scattered.reverse ∧
      (scattered.Pairwise fun f g =>
        f.offset + f.width ≤ g.offset ∨ g.offset + g.width ≤ f.offset) ∧
      write (List.replicate 7 0xff) scattered.reverse = [1, 0xf6, 0xff, 0xff, 0xff, 0xff, 0xff] ∧
      describe scattered.reverse = describe scattered := by
  have hperm : scattered.Perm scattered.reverse := (List.reverse_perm _).symm
  have hapart : scattered.Pairwise fun f g =>
      f.offset + f.width ≤ g.offset ∨ g.offset + g.width ≤ f.offset := by decide +kernel
  obtain ⟨hwrite, ⟨hdescribe, -⟩, -⟩ := write_describe_read_of_perm hperm hapart
  exact ⟨hperm, hapart, (hwrite _).symm.trans (by decide +kernel), hdescribe.symm⟩

end Record

end ChannelPreset
