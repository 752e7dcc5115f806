import ChannelPreset.Proofs.Preset.RoundTrip
import ChannelPreset.Proofs.Preset.Steps
import ChannelPreset.Proofs.Section.Settling

/-!
# Rewriting a Preset

Every section of a body that has been read can be stored and is settled, since a new section is, and
so is each section that a blob puts in its place (`Body.settled_of_decode`). A preset that has been
read is therefore written as a preset that is read and written as the same bytes
(`Preset.exists_decode_encode`).
-/

namespace ChannelPreset

/-- What is kept of a token is written as the token is. -/
@[simp]
theorem Token.encode_kept (token : Token) : token.kept.encode = token.encode := by
  cases token with
  | string text => simp only [kept, encode, tag, payload, beforeNul_cutAtNul]
  | int32 | tokenCount | bytes => rfl

/-- The stored form of a header is written as the header is. -/
theorem Header.encode_stored (h : Header) : h.stored.encode = h.encode := by
  have htokens : h.stored.tokens = h.tokens.map Token.kept := rfl
  rw [encode, encode, Token.encodeAll, Token.encodeAll, htokens, List.flatMap_map]
  simp only [Token.encode_kept]

namespace Body

/-- Every section is settled. -/
def Settled (b : Body) : Prop :=
  ∀ k, (b.sections k).Settled

/-- The stored form of a settled body is written as the body is. -/
theorem encode_stored {b : Body} (h : b.Settled) : b.stored.encode = b.encode := by
  have hblob : ∀ k, (b.stored.sections k).encode = (b.sections k).encode := fun k =>
    Section.encode_stored (h k)
  rw [encode, encode, tokens, tokens]
  simp only [hblob]

theorem storable_initial : initial.Storable :=
  storable_of_lengths (by decide) (by decide) (by decide +kernel)

theorem settled_initial : initial.Settled := Section.settled_initial

/-- What holds of every section of a body, and of a section that is found, holds of every section
with it. -/
theorem forall_sections_found {b : Body} {motive : (k : Kind) → Section k → Prop}
    (hb : ∀ k, motive k (b.sections k)) {k : Kind} {s : Section k} (hs : motive k s) (j : Kind) :
    motive j ((b.found s).sections j) := by
  show motive j ((b.update s).sections j)
  by_cases hj : j = k
  · subst hj
    rw [sections_update_self]
    exact hs
  · rw [sections_update_of_ne _ _ hj]
    exact hb j

/-- What holds of every section that takes a blob as a whole, and of every section before a step,
holds of every section behind it. -/
theorem forall_sections_of_step {motive : (k : Kind) → Section k → Prop}
    (hblob : ∀ {k : Kind} {s t : Section k} {blob : Bytes}, blob.length < 2 ^ 31 →
      s.decode blob = .ok t → t.length = blob.length → motive k t)
    {p q : Progress} {c c' : Cursor} (hstep : Progress.loop.step p c = .ok (q, c'))
    (hp : ∀ k, motive k (p.body.sections k)) : ∀ k, motive k (q.body.sections k) := by
  -- a count and a name leave the sections alone, and a blob puts one in their place
  obtain ⟨move, hnext, happly⟩ := Progress.exists_next hstep
  rcases Progress.next_cases hnext with
    ⟨count, -, -, rfl⟩ | ⟨text, -, -, rfl⟩ | ⟨k, blob, hread, -, rfl⟩
  · cases happly
    exact hp
  · cases happly
    exact hp
  · obtain ⟨body, hdispatch, rfl⟩ := Progress.exists_dispatch_of_apply happly
    obtain ⟨s, hs, hlength, rfl⟩ := dispatch_eq_ok_iff.1 hdispatch
    exact forall_sections_found hp (hblob (Token.bounded_of_read? hread) hs hlength)

/-- What holds of every section that takes a blob as a whole, and of every section before a body is
read, holds of every section of the body that is read. -/
theorem forall_sections_of_decode {motive : (k : Kind) → Section k → Prop}
    (hblob : ∀ {k : Kind} {s t : Section k} {blob : Bytes}, blob.length < 2 ^ 31 →
      s.decode blob = .ok t → t.length = blob.length → motive k t)
    {old b : Body} {bs : Bytes} {n : Nat} (h : old.decode bs = .ok (b, n))
    (hold : ∀ k, motive k (old.sections k)) : ∀ k, motive k (b.sections k) := by
  unfold decode at h
  cases hrun : (Progress.start old).run (.start bs) with
  | error e =>
    rw [hrun] at h
    cases h
  | ok result =>
    rw [hrun] at h
    cases h
    exact (Progress.loop.run_induction
      (motive := fun p _ => ∀ k, motive k (p.body.sections k))
      (forall_sections_of_step hblob) hrun hold).1

/-- A body that is read over one that can be stored and is settled is such a body itself. -/
theorem settled_of_decode {old b : Body} {bs : Bytes} {n : Nat} (h : old.decode bs = .ok (b, n))
    (hold : old.Storable ∧ old.Settled) : b.Storable ∧ b.Settled := by
  have hsections := forall_sections_of_decode
    (motive := fun _ s => (s.Fits ∧ s.length < 2 ^ 31) ∧ s.Settled)
    (fun hshort hs hlength =>
      ⟨⟨Section.fits_of_decode hs, hlength ▸ hshort⟩, Section.settled_of_decode hs⟩)
    h (fun k => ⟨hold.1 k, hold.2 k⟩)
  exact ⟨fun k => (hsections k).1, fun k => (hsections k).2⟩

end Body

namespace Preset

/-- The stored form of a settled preset is written as the preset is. -/
theorem encode_stored {p : Preset} (h : p.body.Settled) : p.stored.encode = p.encode := by
  rw [encode, encode, stored, Header.encode_stored, Body.encode_stored h]

/-- Whatever the input holds, the preset that is read from it can be stored and is settled. -/
theorem settled_of_decode {bs : Bytes} {p : Preset} (h : decode bs = .ok p) :
    p.body.Storable ∧ p.body.Settled := by
  obtain ⟨n, c, n₁, n₂, -, -, hbody, -⟩ := decode_eq_ok_iff.1 h
  exact Body.settled_of_decode hbody ⟨Body.storable_initial, Body.settled_initial⟩

/-- A preset that is read and written is read and written again as the same bytes. -/
theorem exists_decode_encode {bs : Bytes} {p : Preset} (h : decode bs = .ok p) :
    ∃ q, decode p.encode = .ok q ∧ q.encode = p.encode := by
  obtain ⟨hstorable, hsettled⟩ := settled_of_decode h
  exact ⟨p.stored, decode_encode_of_storable hstorable, encode_stored hsettled⟩

/-- An input of one section, with its count behind the blob and a byte behind that. The section has
a switch that is on in an unusual way, and a number of hundredths that is written as the next one.
-/
def unsettled : Bytes :=
  let blob := ((Bytes.overwrite (List.replicate 0xe8 0) 0x04 [0x7f]).overwrite 0x1c
    (Bytes.ofWord 6553602))
  (Token.string magic).encode ++ Header.initial.encode
    ++ Token.encodeAll [.string "InputStrip", .bytes blob, .tokenCount 1] ++ [0xff]

theorem exists_decode_encode_unsettled :
    ∃ p, decode unsettled = .ok p ∧
      (p.body.sections .inputStrip).encode.slice? 0x1c 4 = some (Bytes.ofWord 6553603) ∧
      ∃ q, decode p.encode = .ok q ∧ q.encode = p.encode := by
  have hblob : (decode unsettled).toOption.map
      (fun p => (p.body.sections .inputStrip).encode.slice? 0x1c 4)
        = some (some (Bytes.ofWord 6553603)) := by
    decide +kernel
  cases h : decode unsettled with
  | error e =>
    rw [h] at hblob
    cases hblob
  | ok p =>
    rw [h] at hblob
    exact ⟨p, rfl, Option.some_inj.1 hblob, exists_decode_encode h⟩

end Preset

end ChannelPreset
