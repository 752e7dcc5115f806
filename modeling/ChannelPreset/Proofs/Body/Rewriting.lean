import ChannelPreset.Proofs.Preset.Settling
import ChannelPreset.Proofs.Section.Reading

/-!
# Rewriting Sections

A section that is read from a blob and written again gives a blob of the same length, in which every
field is rewritten at its place and every byte that belongs to no field is zero
(`Body.encode_of_dispatch`).
-/

namespace ChannelPreset

/-- A byte of a blob belongs to a field. -/
def Descriptor.Covers (d : Descriptor) (blob : Bytes) (i : Nat) : Prop :=
  d.offset ≤ i ∧ i < d.offset + d.encoding.span blob d.offset

instance (d : Descriptor) (blob : Bytes) (i : Nat) : Decidable (d.Covers blob i) := by
  unfold Descriptor.Covers
  infer_instance

namespace Section

variable {k : Kind} {s : Section k}

/-- Every field of a section that fits is found in its stored form. -/
theorem slice?_encode (h : s.Fits) {f : Field} (hf : f ∈ s.fields) :
    s.encode.slice? f.offset f.bytes.length = some f.bytes := by
  refine Record.slice?_write s.pairwise_apart_fields (fun g hg => ?_) hf
  rw [List.length_replicate]
  exact h g hg

/-- A byte of a stored form that lies in no field is zero. -/
theorem getElem?_encode_of_apart {i : Nat} (hi : i < s.length)
    (h : ∀ f ∈ s.fields, i < f.offset ∨ f.stop ≤ i) : s.encode[i]? = some 0 := by
  refine (Record.getElem?_write_of_apart h).trans ?_
  rw [List.getElem?_replicate, if_pos hi]

end Section

namespace Body

/-- A section that is read from a blob is written as a blob of that length, in which the bytes of
each field are rewritten and all others are zero. -/
theorem encode_of_dispatch {b b' : Body} {k : Kind} {blob : Bytes}
    (h : b.dispatch k blob = .ok b') :
    (b'.sections k).encode.length = blob.length ∧
      (∀ d ∈ k.layout, ∃ part,
        blob.slice? d.offset (d.encoding.span blob d.offset) = some part ∧
        (b'.sections k).encode.slice? d.offset (d.encoding.span blob d.offset)
          = some (d.encoding.rewritten part)) ∧
      ∀ i < blob.length, (∀ d ∈ k.layout, ¬ d.Covers blob i) →
        (b'.sections k).encode[i]? = some 0 := by
  obtain ⟨s, hs, hlength, rfl⟩ := dispatch_eq_ok_iff.1 h
  have hsection : (b.found s).sections k = s := sections_update_self b s
  rw [hsection]
  refine ⟨by rw [Section.length_encode, hlength], fun d hd => ?_, fun i hi hnone => ?_⟩
  · rw [← s.layout] at hd
    obtain ⟨f, hf, rfl⟩ := List.mem_map.1 hd
    obtain ⟨part, hpart, hbytes⟩ := Encoding.encode_of_read (Section.read_eq_ok_of_decode hs f hf)
    have hwritten := Section.slice?_encode (Section.fits_of_decode hs) hf
    rw [Section.length_bytes_of_decode hs hf] at hwritten
    exact ⟨part, hpart, hwritten.trans (congrArg some hbytes)⟩
  · refine Section.getElem?_encode_of_apart (hlength ▸ hi) fun f hf => ?_
    have hcovers := hnone _ (s.mem_layout hf)
    have hstop : f.stop = f.offset + f.encoding.span blob f.offset :=
      congrArg (f.offset + ·) (Section.length_bytes_of_decode hs hf)
    unfold Descriptor.Covers at hcovers
    omega

/-- A blob with a switch that is on in an unusual way, a byte of no field, and a number of
hundredths that is written as the next one. -/
def oddBlob : Bytes :=
  ((Bytes.overwrite (List.replicate 0xe8 0) 0x04 [0x7f]).overwrite 0x06 [0xff]).overwrite 0x1c
    (Bytes.ofWord 6553602)

theorem encode_of_dispatch_oddBlob :
    ∃ b, initial.dispatch .inputStrip oddBlob = .ok b ∧
      (b.sections .inputStrip).encode.slice? 0x04 1 = some [1] ∧
      (b.sections .inputStrip).encode[0x06]? = some 0 ∧
      (b.sections .inputStrip).encode.slice? 0x1c 4 = some (Bytes.ofWord 6553603) := by
  have hok : (initial.dispatch .inputStrip oddBlob).isOk = true := by decide +kernel
  cases h : initial.dispatch .inputStrip oddBlob with
  | error e =>
    rw [h] at hok
    cases hok
  | ok b =>
    obtain ⟨-, hfields, hrest⟩ := encode_of_dispatch h
    obtain ⟨switch, hswitch, hswitch'⟩ :=
      hfields ⟨"Phantom", 0x04, .bool⟩ (by decide +kernel)
    obtain ⟨number, hnumber, hnumber'⟩ :=
      hfields ⟨"EQ Band 1 Q", 0x1c, .hundredths⟩ (by decide +kernel)
    obtain rfl : [0x7f] = switch := Option.some_inj.1 (Eq.trans (by decide +kernel) hswitch)
    obtain rfl : Bytes.ofWord 6553602 = number :=
      Option.some_inj.1 (Eq.trans (by decide +kernel) hnumber)
    have hrewritten : Encoding.hundredths.rewritten (Bytes.ofWord 6553602)
        = Bytes.ofWord 6553603 := by
      decide +kernel
    rw [hrewritten] at hnumber'
    exact ⟨b, rfl, hswitch', hrest 0x06 (by decide +kernel) (by decide +kernel), hnumber'⟩

end Body

end ChannelPreset
