import ChannelPreset.Proofs.Section.Layout

/-!
# Storing Sections

Reading the stored form of a section that fits gives the section with the stored values of its
fields and the length it was written with, whatever section it is read over
(`Section.decode_encode`).
-/

namespace ChannelPreset.Section

variable {k : Kind}

/-- Two sections are equal when their fields and what they keep for their length are. -/
theorem eq_of_fields_of_memory {s t : Section k} (hfields : s.fields = t.fields)
    (hmemory : s.memory = t.memory) : s = t := by
  obtain ⟨fields, memory, _⟩ := s
  obtain ⟨fields', memory', _⟩ := t
  cases hfields
  cases hmemory
  rfl

/-- The section that is read where it has been written. -/
def stored (s : Section k) : Section k :=
  { fields := s.fields.map Field.stored
    memory := s.memory
    layout := by
      rw [← s.layout, List.map_map]
      exact List.map_congr_left fun f _ => f.toDescriptor_stored }

@[simp]
theorem length_stored (s : Section k) : s.stored.length = s.length := by
  have hstop : (s.fields.map Field.stored).map Field.stop = s.fields.map Field.stop := by
    rw [List.map_map]
    exact List.map_congr_left fun f _ => f.stop_stored
  -- as in `length_of_fixed`, the extent is a variable so that it can be split
  have hlength : ∀ (e : Extent) (m : e.Memory),
      lengthOf (s.fields.map Field.stored) e m = lengthOf s.fields e m := by
    rintro (_ | _ | _) m
    · rfl
    · rfl
    · simp only [lengthOf, hstop]
  exact hlength k.extent s.memory

@[simp]
theorem length_encode (s : Section k) : s.encode.length = s.length :=
  Record.length_encode _ _

/-- Reading as many bytes as a section is written in keeps what it knows about its length. -/
theorem memoryAfter_length (s : Section k) : memoryAfter s.length k.extent = s.memory := by
  have hmemory : ∀ (e : Extent) (m : e.Memory), memoryAfter (lengthOf s.fields e m) e = m := by
    rintro (_ | _ | _) m <;> rfl
  exact hmemory k.extent s.memory

/-- What is read over a section does not depend on the values it held. -/
theorem read_fields_congr (s t : Section k) (b : Batch) :
    Record.read b t.fields = Record.read b s.fields :=
  Record.read_congr b (t.layout.trans s.layout.symm)

/-- What is read from a byte string does not depend on the section it is read over. -/
theorem decode_congr (s t : Section k) (bs : Bytes) : s.decode bs = t.decode bs := by
  have hread := read_fields_congr t s (.start bs)
  have hreread : s.reread bs = t.reread bs :=
    eq_of_fields_of_memory (congrArg Prod.fst hread) rfl
  rw [decode, decode, hread, hreread]

/-- The stored form of a section is read as the section with its stored values. -/
theorem decode_encode {s : Section k} (h : s.Fits) (t : Section k) :
    t.decode s.encode = .ok s.stored := by
  -- the fields that are read over are found at the same places
  have hread : Record.read (.start s.encode) t.fields
      = (s.fields.map Field.stored, .start s.encode) := by
    rw [read_fields_congr s t]
    exact Record.read_encode s.pairwise_apart_fields h
  have hreread : t.reread s.encode = s.stored := by
    refine eq_of_fields_of_memory ?_ ?_
    · show (Record.read (.start s.encode) t.fields).1 = _
      rw [hread]
      rfl
    · show memoryAfter s.encode.length k.extent = _
      rw [length_encode, memoryAfter_length]
      rfl
  rw [decode, hread, hreread]
  rfl

end ChannelPreset.Section
