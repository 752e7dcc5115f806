import ChannelPreset.Proofs.Field.Settling
import ChannelPreset.Proofs.Section.Storage

/-!
# Sections That Are Settled

A section is settled when all its fields are (`Section.Settled`). New sections are settled, and so
is every section that has been read (`Section.settled_of_decode`); storing a settled section and
reading it again changes nothing that is stored (`Section.encode_stored`).
-/

namespace ChannelPreset

/-- The numbers of the catalog are stored in tenths and hundredths. -/
theorem Kind.regular_of_mem_layout (k : Kind) : ∀ d ∈ k.layout, d.encoding.Regular := by
  cases k <;> decide +kernel

namespace Section

variable {k : Kind}

/-- Storing what is read of the section stores the same bytes. -/
def Settled (s : Section k) : Prop :=
  ∀ f ∈ s.fields, f.Settled

theorem settled_initial (k : Kind) : (initial k).Settled := by
  have hfields : ∀ f ∈ k.fields, f.encoding.encode (f.encoding.stored f.value)
      = f.encoding.encode f.value := by
    cases k <;> decide +kernel
  exact hfields

theorem encode_stored {s : Section k} (h : s.Settled) : s.stored.encode = s.encode := by
  rw [encode, length_stored]
  exact Record.encode_map_stored h

/-- A section is only read by a batch without a failure. -/
theorem finish_of_decode {s t : Section k} {bs : Bytes} (h : s.decode bs = .ok t) :
    (Record.read (.start bs) s.fields).2.finish = .ok () ∧ t = s.reread bs := by
  unfold decode at h
  cases hfinish : (Record.read (.start bs) s.fields).2.finish with
  | error e =>
    rw [hfinish] at h
    cases h
  | ok u =>
    rw [hfinish] at h
    exact ⟨rfl, (Except.ok.inj h).symm⟩

theorem eq_reread_of_decode {s t : Section k} {bs : Bytes} (h : s.decode bs = .ok t) :
    t = s.reread bs :=
  (finish_of_decode h).2

/-- A section that is read holds what stands at the places of its fields. -/
theorem read_eq_ok_of_decode {s t : Section k} {bs : Bytes} (h : s.decode bs = .ok t) :
    ∀ f ∈ t.fields, f.encoding.read bs f.offset = .ok f.value := by
  obtain ⟨hfinish, rfl⟩ := finish_of_decode h
  exact (Record.read_eq_ok_of_mem (Batch.finish_eq_ok_iff.1 hfinish)).2

theorem settled_of_decode {s t : Section k} {bs : Bytes} (h : s.decode bs = .ok t) :
    t.Settled := fun f hf =>
  Encoding.settled_of_read (k.regular_of_mem_layout _ (t.mem_layout hf))
    (read_eq_ok_of_decode h f hf)

/-- A layout reaches no farther than the bytes that a section is read from. -/
theorem reach_le_length_of_decode {s t : Section k} {bs : Bytes} (h : s.decode bs = .ok t) :
    k.reach ≤ bs.length := by
  -- each field has been read at its place, so the bytes reach behind it
  refine foldl_max_le (Nat.zero_le _) fun x hx => ?_
  obtain ⟨d, hd, rfl⟩ := List.mem_map.1 hx
  rw [← t.layout] at hd
  obtain ⟨f, hf, rfl⟩ := List.mem_map.1 hd
  exact Encoding.le_length_of_read (read_eq_ok_of_decode h f hf)

/-- A section that has been read is at least as long as its layout, whether it takes the bytes as a
whole or not. -/
theorem reach_le_length_self_of_decode {s t : Section k} {bs : Bytes} (h : s.decode bs = .ok t) :
    k.reach ≤ t.length := by
  by_cases hk : k = .micLineStrips
  · subst hk
    -- the length that is kept is the one of the bytes that the fields were found in
    rw [eq_reread_of_decode h]
    exact reach_le_length_of_decode h
  · exact t.reach_le_length hk

/-- A section that has been read has room for its fields. -/
theorem fits_of_decode {s t : Section k} {bs : Bytes} (h : s.decode bs = .ok t) : t.Fits :=
  fits_of_reach_le (reach_le_length_self_of_decode h)

end Section

end ChannelPreset
