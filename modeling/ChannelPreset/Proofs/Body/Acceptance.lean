import ChannelPreset.Proofs.Body.Grammar
import ChannelPreset.Proofs.Section.Reading

/-!
# Accepting Blobs

A body puts a blob in the place of a section when the section takes the blob as a whole
(`Kind.Accepts`). Which blobs these are is said here without reading any: `Kind.Admits` compares the
length of the blob and looks for the end of the name, and `Kind.Refuses` says for every other blob
with which error it is refused.

* `Kind.accepts_iff_admits`: the blobs of the pairs that a body is read from;
* `Body.dispatch_ok_iff_admits_and_error_iff_refuses`: what becomes of any blob, whatever the body
  holds.
-/

namespace ChannelPreset

/-- The blobs that a section can take as a whole: those of its fixed length, those that are long enough
for the fields of the section which remembers its length, and those that end with the name of the
fitted section, which begins at `0x0c`. -/
def Extent.Admits : Extent → Bytes → Prop
  | .fixed size, blob => blob.length = size
  | .remembered _, blob => 0x14 ≤ blob.length
  | .fitted, blob => 0x0d ≤ blob.length ∧ blob.ZeroFirstAt 0x0c (blob.length - 1)

instance (e : Extent) (blob : Bytes) : Decidable (e.Admits blob) :=
  match e with
  | .fixed size => inferInstanceAs (Decidable (blob.length = size))
  | .remembered _ => inferInstanceAs (Decidable (0x14 ≤ blob.length))
  | .fitted =>
    inferInstanceAs (Decidable (0x0d ≤ blob.length ∧ blob.ZeroFirstAt 0x0c (blob.length - 1)))

namespace Kind

/-- The blobs that the length rule of a section admits. -/
def Admits (k : Kind) (blob : Bytes) : Prop :=
  k.extent.Admits blob

instance (k : Kind) (blob : Bytes) : Decidable (k.Admits blob) :=
  inferInstanceAs (Decidable (k.extent.Admits blob))

/-- Why a blob is refused: its first field that is not found lacks something, or all fields are found
and the section takes another length than the one the blob has. -/
inductive Refuses (k : Kind) (blob : Bytes) : DecodeError → Prop
  | field {before behind : List Descriptor} {d : Descriptor} {error : FieldError} :
      k.layout = before ++ d :: behind → (∀ c ∈ before, c.encoding.Found blob c.offset) →
        d.encoding.Lacks blob d.offset error → Refuses k blob (.field k error)
  | length {consumed : Nat} :
      k.Found blob → k.extent.Takes blob consumed → consumed ≠ blob.length →
        Refuses k blob (.lengthMismatch k blob.length consumed)

variable {k : Kind} {blob : Bytes}

/-- A blob is admitted exactly when all fields are found in it and its length is the one that the
section claims of it. -/
theorem admits_iff : k.Admits blob ↔ k.Found blob ∧ k.extent.Takes blob blob.length := by
  unfold Admits
  obtain rfl | rfl | ⟨size, hsize, -⟩ := k.extent_cases
  · rw [found_iff_reach_le (by decide), Section.reach_micLineStrips]
    exact (and_iff_left rfl).symm
  · -- the section ends with its name, so nothing may stand behind the zero byte that ends it
    rw [found_strip_iff]
    show 0x0d ≤ blob.length ∧ blob.ZeroFirstAt 0x0c (blob.length - 1) ↔
      (∃ i, blob.ZeroFirstAt 0x0c i) ∧ ∃ i, blob.ZeroFirstAt 0x0c i ∧ blob.length = i + 1
    constructor
    · rintro ⟨hlen, hlast⟩
      exact ⟨⟨_, hlast⟩, _, hlast, by omega⟩
    · rintro ⟨-, i, hi, hlen⟩
      have hle := hi.1
      rw [hlen, Nat.add_sub_cancel]
      exact ⟨by omega, hi⟩
  · -- the blob is long enough for the fields when it is as long as the section
    rw [found_iff_reach_le (ne_strip_of_fixed hsize), hsize]
    have hreach := reach_le_of_fixed hsize
    show blob.length = size ↔ k.reach ≤ blob.length ∧ blob.length = size
    omega

/-- A section takes the blobs that its length rule admits. -/
theorem accepts_iff_admits : k.Accepts blob ↔ k.Admits blob := by
  rw [admits_iff]
  constructor
  · rintro ⟨s, hs, hlength⟩
    exact ⟨Section.exists_decode_iff.1 ⟨s, hs⟩, hlength ▸ Section.takes_of_decode hs⟩
  · rintro ⟨hfound, htakes⟩
    obtain ⟨s, hs⟩ := Section.exists_decode_iff.2 hfound
    exact ⟨s, hs, (Section.takes_of_decode hs).unique htakes⟩

end Kind

namespace Body

variable {b : Body} {k : Kind} {blob : Bytes} {error : DecodeError}

/-- A blob that is accepted puts a section in its place. -/
theorem exists_dispatch_iff : (∃ b', b.dispatch k blob = .ok b') ↔ k.Accepts blob := by
  constructor
  · rintro ⟨b', h⟩
    obtain ⟨s, hs, hlength, -⟩ := dispatch_eq_ok_iff.1 h
    exact ⟨s, (Section.decode_congr _ _ blob).trans hs, hlength⟩
  · rintro ⟨s, hs, hlength⟩
    have hread := (Section.decode_congr (b.sections k) _ blob).trans hs
    exact ⟨_, dispatch_eq_ok_iff.2 ⟨s, hread, hlength, rfl⟩⟩

/-- A blob that is refused is refused for one of the two reasons. -/
theorem refuses_of_dispatch (h : b.dispatch k blob = .error error) : k.Refuses blob error := by
  cases hdecode : (b.sections k).decode blob with
  | error e =>
    rw [dispatch_of_decode_error hdecode] at h
    cases h
    obtain ⟨before, d, behind, hlayout, hbefore, hlacks⟩ := Section.decode_eq_error_iff.1 hdecode
    exact .field hlayout hbefore hlacks
  | ok s =>
    rw [dispatch_of_decode_ok hdecode] at h
    by_cases hlength : s.length = blob.length
    · rw [if_pos hlength] at h
      cases h
    · rw [if_neg hlength] at h
      cases h
      exact .length (Section.exists_decode_iff.1 ⟨s, hdecode⟩) (Section.takes_of_decode hdecode)
        hlength

/-- Each of the two reasons is enough to refuse a blob, with the error that belongs to it. -/
theorem dispatch_of_refuses (b : Body) (h : k.Refuses blob error) :
    b.dispatch k blob = .error error := by
  cases h with
  | field hlayout hbefore hlacks =>
    exact dispatch_of_decode_error
      (Section.decode_eq_error_iff.2 ⟨_, _, _, hlayout, hbefore, hlacks⟩)
  | length hfound htakes hne =>
    obtain ⟨s, hs⟩ := Section.exists_decode_iff.2 hfound
    -- the section that is read takes the same length
    obtain rfl := (Section.takes_of_decode hs).unique htakes
    rw [dispatch_of_decode_ok hs, if_neg hne]

/-- Whatever a body holds, it takes the blobs that a section admits, and refuses every other one with
the error that says why. -/
theorem dispatch_ok_iff_admits_and_error_iff_refuses (b : Body) (k : Kind) (blob : Bytes) :
    ((∃ b', b.dispatch k blob = .ok b') ↔ k.Admits blob) ∧
      ∀ error, b.dispatch k blob = .error error ↔ k.Refuses blob error := by
  refine ⟨exists_dispatch_iff.trans Kind.accepts_iff_admits, fun error => ?_⟩
  exact ⟨refuses_of_dispatch, dispatch_of_refuses b⟩

/-- No byte may stand behind a name, and no byte may be missing behind the last field. -/
example :
    Kind.strip.Admits (List.replicate 0x0d 0) ∧ ¬ Kind.strip.Admits (List.replicate 0x0e 0) ∧
      Kind.header.Admits (List.replicate 0x0c 0) ∧ ¬ Kind.header.Admits (List.replicate 0x09 0) := by
  decide

end Body

end ChannelPreset
