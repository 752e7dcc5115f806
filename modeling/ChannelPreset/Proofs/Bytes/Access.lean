import ChannelPreset.Bytes

/-!
# Access by Offset

Laws of `Bytes.slice?` and `Bytes.overwrite`. Both are determined byte by byte:

* `slice?_eq_some_iff`: which bytes a slice has;
* `getElem?_overwrite`: which bytes a string has after a part has been written over it;
  `getElem?_overwrite_of_apart` says which of them are the old ones, and `overwrite_of_lt` that all
  of them are when the part does not fit.

From these follow the laws of a record layout: a part that fits is read back
(`slice?_overwrite_self`), a slice apart from it does not change (`slice?_overwrite_of_apart`), and
parts that are apart can be written in either order (`overwrite_comm`).
-/

namespace ChannelPreset.Bytes

/-- Words are told apart by their bytes. -/
theorem ofWord_inj {a b : Int32} : ofWord a = ofWord b ↔ a = b := by
  refine ⟨fun h => ?_, congrArg ofWord⟩
  rw [← toWord_ofWord a, h, toWord_ofWord]

/-- A slice has the bytes of the string from its offset on. -/
theorem slice?_eq_some_iff {bs part : Bytes} {offset width : Nat} :
    bs.slice? offset width = some part ↔
      part.length = width ∧ offset + width ≤ bs.length ∧
        ∀ i < width, part[i]? = bs[offset + i]? := by
  unfold slice?
  constructor
  · intro h
    split at h
    · rename_i hfit
      cases h
      refine ⟨?_, hfit, fun i hi => ?_⟩
      · rw [List.length_take, List.length_drop]
        omega
      · rw [List.getElem?_take_of_lt hi, List.getElem?_drop]
    · cases h
  · rintro ⟨hlen, hfit, hbytes⟩
    rw [if_pos hfit, Option.some_inj]
    refine List.ext_getElem? fun i => ?_
    by_cases hi : i < width
    · rw [List.getElem?_take_of_lt hi, List.getElem?_drop, hbytes i hi]
    · rw [List.getElem?_eq_none (by rw [List.length_take]; omega),
        List.getElem?_eq_none (by omega)]

/-- A slice that exists lies inside the string. -/
theorem le_of_slice? {bs part : Bytes} {offset width : Nat}
    (h : bs.slice? offset width = some part) : offset + width ≤ bs.length :=
  (slice?_eq_some_iff.1 h).2.1

/-- A part that does not fit as a whole is dropped. -/
theorem overwrite_of_lt {bs part : Bytes} {offset : Nat} (h : bs.length < offset + part.length) :
    bs.overwrite offset part = bs :=
  if_neg (Nat.not_le_of_lt h)

/-- A byte of the string after a part has been written over it: one of the part where the part
lies, and otherwise the one that was there. -/
theorem getElem?_overwrite {bs part : Bytes} {offset : Nat}
    (hfit : offset + part.length ≤ bs.length) (i : Nat) :
    (bs.overwrite offset part)[i]? =
      if offset ≤ i ∧ i < offset + part.length then part[i - offset]? else bs[i]? := by
  have hfront : (bs.take offset).length = offset := by
    rw [List.length_take]
    omega
  rw [overwrite, if_pos hfit, List.append_assoc]
  -- in front of the part, in it, or behind it
  by_cases hlow : i < offset
  · rw [List.getElem?_append_left (by omega), List.getElem?_take_of_lt hlow, if_neg (by omega)]
  · rw [List.getElem?_append_right (by omega), hfront]
    by_cases hhigh : i < offset + part.length
    · rw [List.getElem?_append_left (by omega), if_pos ⟨by omega, hhigh⟩]
    · rw [List.getElem?_append_right (by omega), List.getElem?_drop, if_neg (by omega)]
      congr 1
      omega

/-- Writing a part changes no byte apart from it. -/
theorem getElem?_overwrite_of_apart {bs part : Bytes} {offset i : Nat}
    (hapart : i < offset ∨ offset + part.length ≤ i) :
    (bs.overwrite offset part)[i]? = bs[i]? := by
  by_cases hfit : offset + part.length ≤ bs.length
  · rw [getElem?_overwrite hfit, if_neg (by omega)]
  · rw [overwrite_of_lt (by omega)]

/-- A part that fits is read back. -/
theorem slice?_overwrite_self {bs part : Bytes} {offset : Nat}
    (hfit : offset + part.length ≤ bs.length) :
    (bs.overwrite offset part).slice? offset part.length = some part := by
  rw [slice?_eq_some_iff, length_overwrite]
  refine ⟨rfl, hfit, fun i hi => ?_⟩
  rw [getElem?_overwrite hfit, if_pos ⟨by omega, by omega⟩, Nat.add_sub_cancel_left]

/-- Writing a part changes no slice apart from it. -/
theorem slice?_overwrite_of_apart {bs part : Bytes} {offset start width : Nat}
    (hapart : start + width ≤ offset ∨ offset + part.length ≤ start) :
    (bs.overwrite offset part).slice? start width = bs.slice? start width := by
  refine Option.ext fun bytes => ?_
  rw [slice?_eq_some_iff, slice?_eq_some_iff, length_overwrite]
  refine and_congr_right fun _ => and_congr_right fun _ => forall₂_congr fun i hi => ?_
  rw [getElem?_overwrite_of_apart (by omega)]

/-- A byte after writing depends on the byte that was there and on the length alone. -/
theorem getElem?_overwrite_congr {bs bs' : Bytes} (part : Bytes) (offset : Nat) {i : Nat}
    (hlength : bs.length = bs'.length) (hbyte : bs[i]? = bs'[i]?) :
    (bs.overwrite offset part)[i]? = (bs'.overwrite offset part)[i]? := by
  by_cases hfit : offset + part.length ≤ bs.length
  · rw [getElem?_overwrite hfit, getElem?_overwrite (hlength ▸ hfit), hbyte]
  · rw [overwrite_of_lt (by omega), overwrite_of_lt (by omega), hbyte]

/-- Parts that are apart can be written in either order, whether they fit or not. -/
theorem overwrite_comm {bs part part' : Bytes} {offset offset' : Nat}
    (hapart : offset + part.length ≤ offset' ∨ offset' + part'.length ≤ offset) :
    (bs.overwrite offset part).overwrite offset' part'
      = (bs.overwrite offset' part').overwrite offset part := by
  refine List.ext_getElem? fun i => ?_
  -- no byte lies in both parts
  by_cases hin : offset ≤ i ∧ i < offset + part.length
  · have hout : (bs.overwrite offset' part')[i]? = bs[i]? :=
      getElem?_overwrite_of_apart (by omega)
    rw [getElem?_overwrite_of_apart (by omega)]
    exact getElem?_overwrite_congr _ _ (length_overwrite _ _ _).symm hout.symm
  · have hout : (bs.overwrite offset part)[i]? = bs[i]? :=
      getElem?_overwrite_of_apart (by omega)
    rw [getElem?_overwrite_of_apart (by omega : i < offset ∨ offset + part.length ≤ i)]
    exact getElem?_overwrite_congr _ _ (length_overwrite _ _ _) hout

end ChannelPreset.Bytes
