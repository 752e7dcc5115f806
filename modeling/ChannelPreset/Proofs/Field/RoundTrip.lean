import ChannelPreset.Proofs.Field.Settling

/-!
# Round Trip of a Record

Whatever the layout of a record is, its fields are read as they are stored where they have been
written, as long as no two of them share a byte and all of them lie inside
(`Record.read_write_eq_map_stored`). No field notices the others: what is read for it is what is read
from its own bytes alone.
-/

namespace ChannelPreset

/-- The bytes of a value, with nothing around them, are read as the stored value. -/
theorem Field.read_bytes (f : Field) :
    f.encoding.read f.bytes 0 = .ok (f.encoding.stored f.value) := by
  refine f.encoding.read_eq_stored f.value ?_
  show f.bytes.slice? 0 f.bytes.length = some f.bytes
  rw [Bytes.slice?, if_pos (Nat.le_of_eq (Nat.zero_add _)), List.drop_zero, List.take_length]

namespace Record

/-- Fields that are apart by the widths of their values, and lie inside the bytes that they are
written into, are read without a failure, and each of them as it is stored. It does not matter what
the bytes were, nor what the fields held that are read, as long as they are the same fields. The
value that is stored of a field is the one that is read from its own bytes alone. -/
theorem read_write_eq_map_stored {bs : Bytes} {fs gs : List Field}
    (hlayout : gs.map Field.toDescriptor = fs.map Field.toDescriptor)
    (hapart : fs.Pairwise fun f g =>
      f.offset + f.width ≤ g.offset ∨ g.offset + g.width ≤ f.offset)
    (hinside : ∀ f ∈ fs, f.offset + f.width ≤ bs.length) :
    (read (.start (write bs fs)) gs).2.finish = .ok () ∧
      (read (.start (write bs fs)) gs).1 = fs.map Field.stored ∧
      ∀ f ∈ fs, f.encoding.read f.bytes 0 = .ok f.stored.value := by
  have hstop : ∀ f : Field, f.stop = f.offset + f.width := fun f =>
    congrArg (f.offset + ·) f.length_bytes
  simp only [← hstop] at hapart hinside
  -- what is read depends on the layout alone, so the fields that were written may be read
  have hread : read (.start (write bs fs)) gs = (fs.map Field.stored, .start (write bs fs)) :=
    (read_congr _ hlayout).trans (read_write hapart hinside)
  rw [hread]
  exact ⟨rfl, rfl, fun f _ => f.read_bytes⟩

/-- One field of each encoding, out of order, with values that are not all kept: a text with a
U+0000 behind a character that single-byte text does not hold, a negative divisor, and a delay that
has no word. -/
def mixed : List Field :=
  [{ name := "Name", offset := 11, encoding := .text, value := "é€\x00z" },
    { name := "Delay", offset := 2, encoding := .delay, value := .infinite true },
    { name := "On", offset := 14, encoding := .bool, value := true },
    { name := "Level", offset := 7, encoding := .scaled (-3), value := .ofInt 5 },
    { name := "Shape", offset := 6, encoding := .eqType, value := .curve },
    { name := "Place", offset := 0, encoding := .eqDyn, value := .postDyn },
    { name := "Count", offset := 16, encoding := .int32, value := -7 }]

theorem read_write_eq_map_stored_mixed :
    (read (.start (write (List.replicate 20 0xff) mixed)) (mixed.map Field.stored)).2.finish
        = .ok () ∧
      (read (.start (write (List.replicate 20 0xff) mixed)) (mixed.map Field.stored)).1
        = mixed.map Field.stored ∧
      Encoding.read (SingleByte.encode "é€\x00z") 0 .text = .ok "é?" := by
  obtain ⟨hfinish, hread, halone⟩ := @read_write_eq_map_stored (List.replicate 20 0xff) mixed
    (mixed.map Field.stored) (by decide +kernel) (by decide +kernel) (by decide +kernel)
  have hstored : (Encoding.stored .text "é€\x00z" : String) = "é?" := by decide +kernel
  exact ⟨hfinish, hread, (halone _ List.mem_cons_self).trans (congrArg Except.ok hstored)⟩

end Record

end ChannelPreset
