import ChannelPreset.Proofs.Body.Rewriting
import ChannelPreset.Proofs.Field.Drifting
import ChannelPreset.Single.Bits

/-!
# Presets That Drift

What a preset is written as is written again, after it has been read, exactly when every section is
settled (`Preset.encode_stored_eq_iff`), which is to say when no field drifts
(`Body.settled_iff_not_drifts`). A preset that has been written and read is settled in any case, so
that nothing changes from the second time on (`Preset.kept_iff_not_drifts`).
-/

namespace ChannelPreset

/-! ## Sections -/

namespace Section

variable {k : Kind} {s : Section k}

theorem fits_stored (h : s.Fits) : s.stored.Fits := by
  intro g hg
  obtain ⟨f, hf, rfl⟩ := List.mem_map.1 hg
  rw [f.stop_stored, length_stored]
  exact h f hf

/-- The stored form of a section that fits is kept exactly when the section is settled. -/
theorem encode_stored_eq_iff (h : s.Fits) : s.stored.encode = s.encode ↔ s.Settled := by
  refine ⟨fun heq f hf => ?_, encode_stored⟩
  -- the bytes of the field stand at its place in both
  have hstored : s.stored.encode.slice? f.offset f.stored.bytes.length = some f.stored.bytes :=
    slice?_encode (fits_stored h) (List.mem_map_of_mem hf)
  have hlength : f.stored.bytes.length = f.bytes.length :=
    f.encoding.length_encode_stored f.value
  rw [heq, hlength, slice?_encode h hf] at hstored
  exact (Option.some_inj.1 hstored).symm

end Section

/-! ## Bodies -/

theorem Token.encodeAll_cons (token : Token) (tokens : List Token) :
    encodeAll (token :: tokens) = token.encode ++ encodeAll tokens := by
  rw [encodeAll, List.flatMap_cons, ← encodeAll]

namespace Body

/-- Pairs of the same names are told apart by blobs of the same lengths. -/
theorem blob_eq_of_encodeAll_eq {f g : Kind → Bytes} (hlength : ∀ k, (f k).length = (g k).length)
    {ks : List Kind}
    (h : Token.encodeAll (ks.flatMap fun k => [.string k.name, .bytes (f k)])
      = Token.encodeAll (ks.flatMap fun k => [.string k.name, .bytes (g k)])) :
    ∀ k ∈ ks, f k = g k := by
  induction ks with
  | nil => exact fun k hk => nomatch hk
  | cons k ks ih =>
    rw [List.flatMap_cons, List.flatMap_cons] at h
    simp only [List.cons_append, List.nil_append, Token.encodeAll_cons, List.append_cancel_left_eq]
      at h
    -- the two tokens of the first blobs are of one length, so they end at the same place
    have hword : Token.lengthWord (f k) = Token.lengthWord (g k) := by
      rw [Token.lengthWord, Token.lengthWord, hlength]
    have htoken : (Token.bytes (f k)).encode.length = (Token.bytes (g k)).encode.length := by
      simp only [Token.encode, Token.payload, List.length_cons, List.length_append, hlength,
        Bytes.length_ofWord]
    obtain ⟨hblob, hrest⟩ := List.append_inj h htoken
    simp only [Token.encode, Token.payload, hword, List.cons.injEq, List.append_cancel_left_eq]
      at hblob
    exact List.forall_mem_cons.2 ⟨hblob.2, ih hrest⟩

variable {b : Body}

/-- The stored form of a body that can be stored is kept exactly when every section is settled. -/
theorem encode_stored_eq_iff (hb : b.Storable) : b.stored.encode = b.encode ↔ b.Settled := by
  refine ⟨fun heq k => (Section.encode_stored_eq_iff (hb k).1).1 ?_, encode_stored⟩
  have hlength : ∀ k, (b.stored.sections k).encode.length = (b.sections k).encode.length := by
    intro k
    rw [Section.length_encode, Section.length_encode]
    exact Section.length_stored (b.sections k)
  simp only [encode, tokens, Token.encodeAll_cons, List.append_cancel_left_eq] at heq
  exact blob_eq_of_encodeAll_eq hlength heq k k.mem_all

/-- Every section is settled exactly when no field drifts. -/
theorem settled_iff_not_drifts : b.Settled ↔ ∀ k, ∀ f ∈ (b.sections k).fields, ¬ f.Drifts :=
  forall_congr' fun k => forall₂_congr fun f hf =>
    Encoding.settled_iff_not_drifts (k.regular_of_mem_layout _ ((b.sections k).mem_layout hf)) f.value

end Body

/-! ## Presets -/

namespace Preset

variable {p : Preset}

/-- The stored form of a preset that can be stored is kept exactly when no field drifts. -/
theorem encode_stored_eq_iff (hp : p.body.Storable) :
    p.stored.encode = p.encode ↔ ∀ k, ∀ f ∈ (p.body.sections k).fields, ¬ f.Drifts := by
  rw [← Body.settled_iff_not_drifts, ← Body.encode_stored_eq_iff hp, encode, encode]
  -- the opening and the header are written as they were, so the bodies decide
  show _ ++ p.header.stored.encode ++ p.body.stored.encode = _ ↔ _
  rw [Header.encode_stored, List.append_cancel_left_eq]

/-- A preset that can be stored is written, read and written again as the same bytes exactly when
none of its fields drifts, and a third time as the second in any case. -/
theorem exists_decode_of_storable (hp : p.body.Storable) :
    ∃ q, decode p.encode = .ok q ∧
      (q.encode = p.encode ↔ ∀ k, ∀ f ∈ (p.body.sections k).fields, ¬ f.Drifts) ∧
      ∃ r, decode q.encode = .ok r ∧ r.encode = q.encode := by
  have hdecode := decode_encode_of_storable hp
  -- the preset that is read is settled, whether the one that was written is or not
  obtain ⟨hstorable, hsettled⟩ := settled_of_decode hdecode
  exact ⟨p.stored, hdecode, encode_stored_eq_iff hp, p.stored.stored,
    decode_encode_of_storable hstorable, encode_stored hsettled⟩

/-- Which stored forms are kept when they are read and stored again. The words of tenths all are.
Those of hundredths are unless they drift, and the word of a delay is when it has not been cut to the
range of words. So a preset is written as the same bytes exactly when none of its fields drifts. What
has been written a second time is written as the same bytes from then on. -/
theorem kept_iff_not_drifts :
    (∀ x : Single, (Single.ofScaledWord 10 (x.toScaledWord 10)).toScaledWord 10
        = x.toScaledWord 10) ∧
      (∀ x : Single, (Single.ofScaledWord 100 (x.toScaledWord 100)).toScaledWord 100
          = x.toScaledWord 100 ↔ ¬ Magnitude.Drifts 100 (x.toScaledWord 100).toInt.natAbs) ∧
      (∀ x : Single, (Single.ofDelayWord x.toDelayWord).toDelayWord = x.toDelayWord ↔
        -2 ^ 31 ≤ x.samples ∧ x.samples < 2 ^ 31) ∧
      ∀ p : Preset, 0x14 ≤ (p.body.sections .micLineStrips).length →
        (p.body.sections .micLineStrips).length < 2 ^ 31 →
        (p.body.sections .strip).encode.length < 2 ^ 31 →
        ∃ q, decode p.encode = .ok q ∧
          (q.encode = p.encode ↔ ∀ k, ∀ f ∈ (p.body.sections k).fields, ¬ f.Drifts) ∧
          ∃ r, decode q.encode = .ok r ∧ r.encode = q.encode := by
  have htenths : ∀ m, ¬ Magnitude.Drifts 10 m := fun m hdrifts => absurd hdrifts.1 (by decide)
  refine ⟨fun x => ?_, Single.toScaledWord_kept_iff (Or.inr ⟨rfl, rfl⟩) rfl,
    Single.restoredDelay_toDelayWord_eq_iff, fun p hroom hremembered hfitted => ?_⟩
  · exact (Single.toScaledWord_kept_iff (Or.inl ⟨rfl, rfl⟩) rfl x).2 (htenths _)
  · rw [Section.length_encode] at hfitted
    exact exists_decode_of_storable (Body.storable_of_lengths hroom hremembered hfitted)

/-- A new preset with 65536.015625 as a number in hundredths and 22369622 as a delay. -/
def excessive : Preset :=
  let quality := Single.ofBits 0x47800002
  let delay := Single.ofBits 0x4baaaaab
  { initial with
    body :=
      (Body.initial.update ((Section.initial .inputStrip).assign "EQ Band 1 Q" fun
        | .scaled _ => some quality
        | _ => none)).update ((Section.initial .audioStrip).assign "Delay" fun
        | .delay => some delay
        | _ => none) }

theorem kept_iff_not_drifts_excessive :
    ∃ q, decode excessive.encode = .ok q ∧ q.encode ≠ excessive.encode ∧
      ∃ r, decode q.encode = .ok r ∧ r.encode = q.encode := by
  obtain ⟨-, -, -, hpresets⟩ := kept_iff_not_drifts
  obtain ⟨q, hdecode, hkept, hagain⟩ :=
    hpresets excessive (by decide) (by decide) (by decide +kernel)
  have hdrifts : ∃ f ∈ (excessive.body.sections .audioStrip).fields, f.Drifts := by decide +kernel
  obtain ⟨f, hf, hdrifts⟩ := hdrifts
  exact ⟨q, hdecode, fun heq => hkept.1 heq _ f hf hdrifts, hagain⟩

/-- Neither number is kept, and the preset with both is written as other bytes. -/
theorem not_kept_excessive :
    (Single.ofScaledWord 100 ((Single.ofBits 0x47800002).toScaledWord 100)).toScaledWord 100
        ≠ (Single.ofBits 0x47800002).toScaledWord 100 ∧
      (Single.ofDelayWord (Single.ofBits 0x4baaaaab).toDelayWord).toDelayWord
        ≠ (Single.ofBits 0x4baaaaab).toDelayWord ∧
      (decode excessive.encode).toOption.map encode ≠ some excessive.encode := by
  decide +kernel

end Preset

end ChannelPreset
