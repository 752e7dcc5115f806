import ChannelPreset.Proofs.Field.Finding
import ChannelPreset.Proofs.Section.Settling

/-!
# Reading Sections

What becomes of any byte string that a section is read from. The section is read exactly when all
its fields are found (`Section.exists_decode_iff`), and otherwise the first field that is not found
says why (`Section.decode_eq_error_iff`). What is read is made of the bytes alone: the values stand at
the places of the fields (`Section.decode_eq_ok_iff`), and the length is the one that the length rule
takes from the bytes (`Section.takes_of_decode`).

* `Section.decode_eq_and_read_eq`: nothing of the section that is read over is left;
* `Section.claims_more_iff_and_decode_take`: which sections claim more bytes than there are, and that
  the bytes which a section claims are enough to read it.
-/

namespace ChannelPreset

/-- The lengths that a section claims when it is read from a byte string: a fixed one, the length of
the string, or everything up to the first zero byte of the name, which is the last field of the
fitted section and begins at `0x0c`. -/
def Extent.Takes : Extent → Bytes → Nat → Prop
  | .fixed length, _, n => n = length
  | .remembered _, bs, n => n = bs.length
  | .fitted, bs, n => ∃ i, bs.ZeroFirstAt 0x0c i ∧ n = i + 1

theorem Extent.Takes.unique {e : Extent} {bs : Bytes} {m n : Nat} (hm : e.Takes bs m)
    (hn : e.Takes bs n) : m = n := by
  cases e with
  | fixed length => exact hm.trans hn.symm
  | remembered initial => exact hm.trans hn.symm
  | fitted =>
    obtain ⟨i, hi, rfl⟩ := hm
    obtain ⟨j, hj, rfl⟩ := hn
    rw [hi.unique hj]

namespace Kind

/-- All fields of the section are found in a byte string. -/
def Found (k : Kind) (bs : Bytes) : Prop :=
  ∀ d ∈ k.layout, d.encoding.Found bs d.offset

variable {k : Kind} {bs : Bytes}

/-- Where no field is a text, the fields are found as soon as they lie inside the string. -/
theorem found_iff_reach_le (hk : k ≠ .strip) : k.Found bs ↔ k.reach ≤ bs.length := by
  constructor
  · intro h
    refine foldl_max_le (Nat.zero_le _) fun x hx => ?_
    obtain ⟨d, hd, rfl⟩ := List.mem_map.1 hx
    exact (h d hd).1
  · intro h d hd
    exact ⟨Nat.le_trans (leastStop_le_reach hd) h, fun htext => absurd htext (k.encoding_ne_text hk d hd)⟩

/-- The fields in front of the name lie in front of its first byte, so only the name has to be found.
-/
theorem found_strip_iff : Kind.strip.Found bs ↔ ∃ i, bs.ZeroFirstAt 0x0c i := by
  rw [Bytes.exists_zeroFirstAt_iff]
  constructor
  · intro h
    have hname : Encoding.text.Found bs 0x0c := h ⟨"Channel Name", 0x0c, .text⟩ (by decide)
    exact hname.2 rfl
  · rintro ⟨i, hle, hzero⟩ d hd
    have hlt := (List.getElem?_eq_some_iff.1 hzero).1
    have hinside : ∀ d ∈ Kind.strip.layout, d.leastStop ≤ 0x0d ∧ (d.encoding = .text → d.offset = 0x0c) := by
      decide
    obtain ⟨hstop, htext⟩ := hinside d hd
    refine ⟨?_, fun he => ⟨i, ?_, hzero⟩⟩
    · show d.leastStop ≤ bs.length
      omega
    · rw [htext he]
      exact hle

/-- Only two sections of fixed length are longer than their fields. -/
theorem reach_eq_of_fixed {n : Nat} (h : k.extent = .fixed n) (hheader : k ≠ .header)
    (hinput : k ≠ .inputStrip) : k.reach = n := by
  cases k <;> cases h <;>
    first
    | exact absurd rfl hheader
    | exact absurd rfl hinput
    | decide +kernel

end Kind

namespace Section

variable {k : Kind} {s t : Section k} {bs : Bytes}

/-- The first field that is not found, in the order of reading, is the failure of the batch. -/
theorem failure_read (s : Section k) (bs : Bytes) :
    (Record.read (.start bs) s.fields).2.failure
      = k.layout.findSome? fun d => d.encoding.failure? bs d.offset := by
  rw [Record.failure_read, s.layout]
  rfl

theorem decode_of_failure_none
    (h : (k.layout.findSome? fun d => d.encoding.failure? bs d.offset) = none) :
    s.decode bs = .ok (s.reread bs) := by
  rw [decode, Batch.finish, failure_read, h]
  rfl

theorem decode_of_failure_some {error : FieldError}
    (h : (k.layout.findSome? fun d => d.encoding.failure? bs d.offset) = some error) :
    s.decode bs = .error error := by
  rw [decode, Batch.finish, failure_read, h]
  rfl

/-- A section is read exactly when all its fields are found. -/
theorem exists_decode_iff : (∃ t, s.decode bs = .ok t) ↔ k.Found bs := by
  have hnone : (k.layout.findSome? fun d => d.encoding.failure? bs d.offset) = none ↔ k.Found bs := by
    simp only [List.findSome?_eq_none_iff, Encoding.failure?_eq_none_iff]
    rfl
  rw [← hnone]
  cases h : k.layout.findSome? fun d => d.encoding.failure? bs d.offset with
  | none => simp [decode_of_failure_none h]
  | some error => simp [decode_of_failure_some h]

/-- Reading a section fails for what its first field that is not found lacks. -/
theorem decode_eq_error_iff {error : FieldError} :
    s.decode bs = .error error ↔
      ∃ before d behind, k.layout = before ++ d :: behind ∧
        (∀ c ∈ before, c.encoding.Found bs c.offset) ∧ d.encoding.Lacks bs d.offset error := by
  have hsome : (k.layout.findSome? fun d => d.encoding.failure? bs d.offset) = some error ↔
      ∃ before d behind, k.layout = before ++ d :: behind ∧
        (∀ c ∈ before, c.encoding.Found bs c.offset) ∧ d.encoding.Lacks bs d.offset error := by
    simp only [List.findSome?_eq_some_iff, Encoding.failure?_eq_none_iff,
      Encoding.failure?_eq_some_iff]
    grind
  rw [← hsome]
  cases h : k.layout.findSome? fun d => d.encoding.failure? bs d.offset with
  | none => simp [decode_of_failure_none h]
  | some error => simp [decode_of_failure_some h]

/-- A section is read as the one whose values stand at the places of its fields, with what is kept
of the length of the bytes. -/
theorem decode_eq_ok_iff :
    s.decode bs = .ok t ↔
      (∀ f ∈ t.fields, f.encoding.read bs f.offset = .ok f.value) ∧
        t.memory = memoryAfter bs.length k.extent := by
  constructor
  · intro h
    refine ⟨read_eq_ok_of_decode h, ?_⟩
    rw [eq_reread_of_decode h]
    rfl
  · rintro ⟨hvalues, hmemory⟩
    -- a field that holds what stands in the bytes is read as itself
    have hread : Record.read (.start bs) s.fields = (t.fields, .start bs) := by
      rw [read_fields_congr t s]
      exact Record.read_eq_self hvalues
    have hreread : s.reread bs = t := by
      refine eq_of_fields_of_memory ?_ hmemory.symm
      exact congrArg Prod.fst hread
    rw [decode, hread, hreread]
    rfl

/-- A field of a section that has been read covers as many bytes as it is written in. -/
theorem length_bytes_of_decode (h : s.decode bs = .ok t) {f : Field} (hf : f ∈ t.fields) :
    f.bytes.length = f.encoding.span bs f.offset :=
  Encoding.length_encode_of_read (read_eq_ok_of_decode h f hf)

/-- The fitted section ends with its name. -/
theorem length_of_decode_strip {s t : Section .strip} (h : s.decode bs = .ok t) :
    t.length = 0x0c + Encoding.text.span bs 0x0c := by
  -- each field ends where its value ends in the bytes
  have hstops : t.fields.map Field.stop
      = Kind.strip.layout.map fun d => d.offset + d.encoding.span bs d.offset := by
    rw [← t.layout, List.map_map]
    refine List.map_congr_left fun f hf => ?_
    rw [Field.stop, length_bytes_of_decode h hf]
    rfl
  show (t.fields.map Field.stop).foldl max 0 = _
  rw [hstops]
  show max (max (max (max 0 1) 8) 12) (0x0c + Encoding.text.span bs 0x0c) = _
  omega

/-- The length of a section that has been read is the one that its length rule takes from the bytes.
-/
theorem takes_of_decode (h : s.decode bs = .ok t) : k.extent.Takes bs t.length := by
  obtain rfl | rfl | ⟨n, hn, -⟩ := k.extent_cases
  · -- what is remembered is the length of the bytes
    exact (decode_eq_ok_iff.1 h).2
  · -- the name, and with it the section, ends at the zero byte that it is found by
    obtain ⟨i, hi⟩ := Kind.found_strip_iff.1 (exists_decode_iff.1 ⟨t, h⟩)
    obtain ⟨-, rfl⟩ := Bytes.zeroFirstAt_iff.1 hi
    exact ⟨_, hi, length_of_decode_strip h⟩
  · rw [hn, t.length_of_fixed hn]
    rfl

/-- The bytes that a section claims are enough to read it. -/
theorem decode_take (h : s.decode bs = .ok t) : s.decode (bs.take t.length) = .ok t := by
  -- the front of the bytes is all of them where more is claimed
  by_cases hle : t.length ≤ bs.length
  · obtain ⟨hvalues, -⟩ := decode_eq_ok_iff.1 h
    refine decode_eq_ok_iff.2 ⟨fun f hf => ?_, ?_⟩
    · have hstop := fits_of_decode h f hf
      rw [Field.stop, length_bytes_of_decode h hf] at hstop
      exact Encoding.read_take (hvalues f hf) hstop
    · rw [List.length_take, Nat.min_eq_left hle, memoryAfter_length]
  · rw [List.take_of_length_le (by omega)]
    exact h

/-- A section claims more bytes than there are exactly when its length is fixed and the bytes end
between its last field and its end. -/
theorem exists_decode_lt_iff :
    (∃ t, s.decode bs = .ok t ∧ bs.length < t.length) ↔
      ∃ n, k.extent = .fixed n ∧ k.reach ≤ bs.length ∧ bs.length < n := by
  constructor
  · rintro ⟨t, h, hlt⟩
    have htakes := takes_of_decode h
    cases hextent : k.extent with
    | fixed n =>
      rw [t.length_of_fixed hextent] at hlt
      exact ⟨n, rfl, reach_le_length_of_decode h, hlt⟩
    | remembered initial =>
      rw [hextent] at htakes
      have hlength : t.length = bs.length := htakes
      omega
    | fitted =>
      rw [hextent] at htakes
      obtain ⟨i, hi, hlength⟩ := htakes
      have hinside := hi.lt_length
      omega
  · rintro ⟨n, hn, hreach, hlt⟩
    have hfound := (Kind.found_iff_reach_le (Kind.ne_strip_of_fixed hn)).2 hreach
    obtain ⟨t, ht⟩ := exists_decode_iff.2 hfound
    refine ⟨t, ht, ?_⟩
    rw [t.length_of_fixed hn]
    exact hlt

/-! ## Whatever was there before -/

/-- Two sections of one kind, whatever they hold and whatever length one of them remembers, are read
from a byte string with the same failure or as the same section. Every value of that section stands
in the bytes at the place of its field, and its length is taken from the bytes. -/
theorem decode_eq_and_read_eq (s s' : Section k) (bs : Bytes) :
    s.decode bs = s'.decode bs ∧ ∀ t, s.decode bs = .ok t →
      (∀ f ∈ t.fields, f.encoding.read bs f.offset = .ok f.value) ∧ k.extent.Takes bs t.length := by
  refine ⟨decode_congr s s' bs, fun t h => ⟨?_, takes_of_decode h⟩⟩
  exact read_eq_ok_of_decode h

/-- A section that remembers a greater length and has other values than a new one. -/
def lived : Section .micLineStrips :=
  { ((initial .micLineStrips).assign "Pad" fun
      | .bool => some true
      | _ => none) with
    memory := (0x200 : Nat) }

theorem decode_eq_and_read_eq_lived :
    ∃ t, lived.decode (List.replicate 0x14 0) = .ok t ∧
      (initial .micLineStrips).decode (List.replicate 0x14 0) = .ok t ∧ t.length = 0x14 := by
  obtain ⟨t, ht⟩ : ∃ t, lived.decode (List.replicate 0x14 0) = .ok t :=
    exists_decode_iff.2 ((Kind.found_iff_reach_le (by decide)).2 (by decide +kernel))
  obtain ⟨heq, hfresh⟩ := decode_eq_and_read_eq lived (initial .micLineStrips) (List.replicate 0x14 0)
  obtain ⟨-, hlength⟩ := hfresh t ht
  exact ⟨t, ht, heq ▸ ht, hlength⟩

/-! ## What is claimed of the bytes -/

/-- The sections that claim more bytes than there are are those of two kinds, whose last field ends
before they do, read from bytes that end in between. What a section claims is enough to read it, and
the section of remembered length claims all bytes. -/
theorem claims_more_iff_and_decode_take (s : Section k) (bs : Bytes) :
    ((∃ t, s.decode bs = .ok t ∧ bs.length < t.length) ↔
      k = .header ∧ 0x09 ≤ bs.length ∧ bs.length < 0x0c ∨
        k = .inputStrip ∧ 0xe4 ≤ bs.length ∧ bs.length < 0xe8) ∧
      ∀ t, s.decode bs = .ok t →
        s.decode (bs.take t.length) = .ok t ∧ (k = .micLineStrips → t.length = bs.length) := by
  refine ⟨?_, fun t h => ⟨decode_take h, ?_⟩⟩
  · rw [exists_decode_lt_iff]
    have hheader : Kind.reach .header = 0x09 := by decide +kernel
    have hinput : Kind.reach .inputStrip = 0xe4 := by decide +kernel
    constructor
    · rintro ⟨n, hn, hreach, hlt⟩
      by_cases hk : k = .header
      · subst hk
        cases hn
        exact Or.inl ⟨rfl, hheader ▸ hreach, hlt⟩
      by_cases hk' : k = .inputStrip
      · subst hk'
        cases hn
        exact Or.inr ⟨rfl, hinput ▸ hreach, hlt⟩
      · -- everywhere else the last field ends where the section does
        have hfull := Kind.reach_eq_of_fixed hn hk hk'
        omega
    · rintro (⟨rfl, hreach, hlt⟩ | ⟨rfl, hreach, hlt⟩)
      · exact ⟨0x0c, rfl, hheader ▸ hreach, hlt⟩
      · exact ⟨0xe8, rfl, hinput ▸ hreach, hlt⟩
  · rintro rfl
    exact takes_of_decode h

/-- A section with a name of three characters and two bytes behind it. -/
def named : Bytes :=
  List.replicate 0x0c 0 ++ [0x47, 0x74, 0x72, 0x00, 0xaa, 0xbb]

theorem claims_more_iff_and_decode_take_named :
    (∃ t, (initial .strip).decode named = .ok t ∧ t.length = 0x10 ∧
      (initial .strip).decode (named.take 0x10) = .ok t) ∧
      ∃ t, (initial .header).decode (List.replicate 0x09 0) = .ok t ∧ 0x09 < t.length := by
  constructor
  · obtain ⟨t, ht⟩ : ∃ t, (initial .strip).decode named = .ok t :=
      exists_decode_iff.2 (Kind.found_strip_iff.2 ⟨0x0f, by decide⟩)
    have hlength : t.length = 0x10 := (length_of_decode_strip ht).trans (by decide)
    obtain ⟨-, hagain⟩ := claims_more_iff_and_decode_take (initial .strip) named
    exact ⟨t, ht, hlength, hlength ▸ (hagain t ht).1⟩
  · refine (claims_more_iff_and_decode_take (initial .header) (List.replicate 0x09 0)).1.2 ?_
    decide

/-- A section can claim bytes that it was not given. -/
theorem not_forall_length_le_of_decode :
    ¬ ∀ (k : Kind) (bs : Bytes) (t : Section k), (initial k).decode bs = .ok t →
      t.length ≤ bs.length ∧ (initial k).decode (bs.take t.length) = .ok t := by
  intro h
  -- nine bytes hold all fields of a section of twelve
  obtain ⟨t, ht, hlt⟩ := (@exists_decode_lt_iff .header (initial .header) (List.replicate 0x09 0)).2
    ⟨0x0c, rfl, by decide +kernel, by decide⟩
  have hle := (h .header _ t ht).1
  omega

end Section

end ChannelPreset
