import ChannelPreset.Proofs.Field.Storage
import ChannelPreset.Section.Basic

/-!
# Layouts of the Catalog

The two properties of the layouts that storing a section rests on, for each section of the catalog.

* `Kind.pairwise_apart_layout`: no two fields share a byte, whatever values they hold;
* `Section.fits_of_reach_le`: all fields lie inside a stored form that is at least `Kind.reach`
  bytes long, which every section is but one whose length is remembered
  (`Section.reach_le_length`).
-/

namespace ChannelPreset

/-- A maximum is at least what it started from and at least every member. -/
theorem le_foldl_max (xs : List Nat) (start : Nat) :
    start ≤ xs.foldl max start ∧ ∀ x ∈ xs, x ≤ xs.foldl max start := by
  induction xs generalizing start with
  | nil => simp
  | cons y ys ih =>
    obtain ⟨hstart, hmem⟩ := ih (max start y)
    refine ⟨by rw [List.foldl_cons]; omega, fun x hx => ?_⟩
    rcases List.mem_cons.1 hx with rfl | hx
    · rw [List.foldl_cons]
      omega
    · exact hmem x hx

/-- A maximum is at most a bound of its start and its members. -/
theorem foldl_max_le {xs : List Nat} {start bound : Nat} (hstart : start ≤ bound)
    (h : ∀ x ∈ xs, x ≤ bound) : xs.foldl max start ≤ bound := by
  induction xs generalizing start with
  | nil => exact hstart
  | cons y ys ih =>
    have hy := h y List.mem_cons_self
    exact ih (by omega) fun x hx => h x (List.mem_cons_of_mem y hx)

namespace Descriptor

/-- The offset behind the bytes that every value of the field takes. -/
def leastStop (d : Descriptor) : Nat := d.offset + d.encoding.leastWidth

/-- Every value of the first field ends before the second field begins. -/
def Before (d e : Descriptor) : Prop :=
  d.encoding ≠ .text ∧ d.leastStop ≤ e.offset

/-- Whatever values they hold, two fields share no byte. -/
def Apart (d e : Descriptor) : Prop :=
  d.Before e ∨ e.Before d

instance (d e : Descriptor) : Decidable (d.Apart e) := by
  unfold Apart Before
  infer_instance

end Descriptor

namespace Field

theorem stop_eq_leastStop {f : Field} (h : f.encoding ≠ .text) :
    f.stop = f.toDescriptor.leastStop :=
  congrArg (f.offset + ·) (Encoding.length_encode h f.value)

/-- A field never takes fewer bytes than its encoding says. -/
theorem leastStop_le_stop (f : Field) : f.toDescriptor.leastStop ≤ f.stop := by
  by_cases h : f.encoding = .text
  · refine Nat.add_le_add_left ?_ f.offset
    show f.encoding.leastWidth ≤ (f.encoding.encode f.value).length
    obtain ⟨⟨_, _, e⟩, v⟩ := f
    cases h
    show 1 ≤ (SingleByte.encode v).length
    rw [SingleByte.length_encode]
    exact Nat.le_add_left 1 _
  · exact Nat.le_of_eq (stop_eq_leastStop h).symm

theorem apart_of_toDescriptor {f g : Field} (h : f.toDescriptor.Apart g.toDescriptor) :
    f.Apart g := by
  rcases h with ⟨hne, hle⟩ | ⟨hne, hle⟩
  · refine Or.inl ?_
    rw [stop_eq_leastStop hne]
    exact hle
  · refine Or.inr ?_
    rw [stop_eq_leastStop hne]
    exact hle

end Field

namespace Kind

/-- The least number of bytes in which all fields of a section find room. -/
def reach (k : Kind) : Nat :=
  (k.layout.map Descriptor.leastStop).foldl max 0

/-- No two fields of a section share a byte. -/
theorem pairwise_apart_layout (k : Kind) : k.layout.Pairwise Descriptor.Apart := by
  cases k <;> decide +kernel

/-- Only the section that is fitted to its fields has a text. -/
theorem encoding_ne_text (k : Kind) (hk : k ≠ .strip) : ∀ d ∈ k.layout, d.encoding ≠ .text := by
  cases k <;> first | exact absurd rfl hk | decide +kernel

theorem leastStop_le_reach {k : Kind} {d : Descriptor} (hd : d ∈ k.layout) :
    d.leastStop ≤ k.reach :=
  (le_foldl_max _ 0).2 _ (List.mem_map_of_mem hd)

/-- One length is remembered, one is fitted, and every other one is fixed, and short. -/
theorem extent_cases (k : Kind) :
    k = .micLineStrips ∨ k = .strip ∨ ∃ n, k.extent = .fixed n ∧ n < 2 ^ 31 := by
  cases k <;>
    first
    | exact .inl rfl
    | exact .inr (.inl rfl)
    | exact .inr (.inr ⟨_, rfl, by decide⟩)

theorem ne_strip_of_fixed {k : Kind} {n : Nat} (h : k.extent = .fixed n) : k ≠ .strip := by
  rintro rfl
  cases h

/-- A fixed length leaves room for all fields. -/
theorem reach_le_of_fixed {k : Kind} {n : Nat} (h : k.extent = .fixed n) : k.reach ≤ n := by
  cases k <;> cases h <;> decide +kernel

end Kind

namespace Section

variable {k : Kind}

/-- All fields lie inside the stored form, so writing drops none of them. -/
def Fits (s : Section k) : Prop :=
  ∀ f ∈ s.fields, f.stop ≤ s.length

theorem mem_layout (s : Section k) {f : Field} (hf : f ∈ s.fields) : f.toDescriptor ∈ k.layout := by
  rw [← s.layout]
  exact List.mem_map_of_mem hf

/-- No two fields of a section share a byte. -/
theorem pairwise_apart_fields (s : Section k) : s.fields.Pairwise Field.Apart := by
  have h := k.pairwise_apart_layout
  rw [← s.layout, List.pairwise_map] at h
  exact h.imp Field.apart_of_toDescriptor

/-- A section fits as soon as its stored form is long enough for its layout. -/
theorem fits_of_reach_le {s : Section k} (h : k.reach ≤ s.length) : s.Fits := by
  intro f hf
  by_cases hk : k = .strip
  · subst hk
    -- the length of the fitted section is the largest end of a field
    exact (le_foldl_max _ 0).2 _ (List.mem_map_of_mem hf)
  · -- elsewhere no field is a text, so its end does not depend on its value
    have hd := s.mem_layout hf
    rw [Field.stop_eq_leastStop (k.encoding_ne_text hk _ hd)]
    exact Nat.le_trans (Kind.leastStop_le_reach hd) h

theorem length_of_fixed (s : Section k) {n : Nat} (h : k.extent = .fixed n) : s.length = n := by
  -- the memory has a type that depends on the extent, so the extent is made a variable first
  have hlength : ∀ (e : Extent) (m : e.Memory), e = .fixed n → lengthOf s.fields e m = n := by
    rintro _ _ rfl
    rfl
  exact hlength k.extent s.memory h

/-- Every stored form but the one of remembered length is long enough for its layout. -/
theorem reach_le_length (s : Section k) (hk : k ≠ .micLineStrips) : k.reach ≤ s.length := by
  obtain rfl | rfl | ⟨n, hn, -⟩ := k.extent_cases
  · exact absurd rfl hk
  · refine foldl_max_le (Nat.zero_le _) fun x hx => ?_
    obtain ⟨d, hd, rfl⟩ := List.mem_map.1 hx
    rw [← s.layout] at hd
    obtain ⟨f, hf, rfl⟩ := List.mem_map.1 hd
    exact Nat.le_trans f.leastStop_le_stop ((le_foldl_max _ 0).2 _ (List.mem_map_of_mem hf))
  · rw [s.length_of_fixed hn]
    exact Kind.reach_le_of_fixed hn

/-- The fields of the section of remembered length need `0x14` bytes. -/
theorem reach_micLineStrips : Kind.reach .micLineStrips = 0x14 := by decide +kernel

end Section

end ChannelPreset
