import ChannelPreset.Proofs.Preset.Loop
import ChannelPreset.Proofs.Preset.Parts
import ChannelPreset.Proofs.Section.Storage

/-!
# Round Trip of a Preset

A preset that is written and read again is the preset with its stored values (`Preset.stored`): the
header with its texts cut at U+0000 and its three pairs counted, and the body with the stored values
of every section, all of which are found, in the order of the catalog.

* `Header.decode_encode_append`, `Body.decode_encode_append`: each part is read from the front of
  what it has been written in front of, and takes exactly the bytes it was written as;
* `Preset.decode_encode_eq_stored`: the same of a whole preset.
-/

namespace ChannelPreset

/-! ## The header -/

namespace Header

/-- The header that is read where a header has been written. -/
def stored (h : Header) : Header :=
  { tokenCount := 3
    version := h.version
    fileType := cutAtNul h.fileType
    userComment := cutAtNul h.userComment }

/-- Reading goes from any header through the tokens of another to the stored form of that one. -/
theorem path_tokens (old h : Header) :
    Progress.loop.Path (.start old) (h.tokens.map Token.kept)
      { header := { h.stored with tokenCount := old.tokenCount }
        pending := none
        tally := ⟨some 3, 3⟩ } :=
  .cons rfl (Progress.takes_tokenCount rfl 3) <|
  .cons rfl (Progress.takes_string (.name versionName) rfl) <|
  .cons rfl (Progress.takes_int32 (.version h.version) rfl) <|
  .cons rfl (Progress.takes_string (.name fileTypeName) rfl) <|
  .cons rfl (Progress.takes_string (.fileType (cutAtNul h.fileType)) rfl) <|
  .cons rfl (Progress.takes_string (.name userCommentName) rfl) <|
  .cons rfl (Progress.takes_string (.userComment (cutAtNul h.userComment)) rfl) .nil

theorem bounded_of_mem_tokens {h : Header} {t : Token} (ht : t ∈ h.tokens) : t.Bounded := by
  simp only [tokens, List.mem_cons, List.not_mem_nil, or_false] at ht
  rcases ht with rfl | rfl | rfl | rfl | rfl | rfl | rfl <;> trivial

/-- A written header is read over any other, whatever follows it. -/
theorem decode_encode_append (old h : Header) (rest : Bytes) :
    old.decode (h.encode ++ rest) = .ok (h.stored, h.encode.length) := by
  have hrun := (path_tokens old h).run rfl (fun _ => bounded_of_mem_tokens) 0 rest
  rw [Nat.zero_add] at hrun
  show Except.bind (Progress.run _ _) _ = _
  refine (congrArg (Except.bind · _) hrun).trans ?_
  rfl

end Header

/-! ## The body -/

namespace Body

/-- The body that is read where a body has been written. -/
def stored (b : Body) : Body :=
  { tokenCount := catalogCount
    sections := fun k => (b.sections k).stored
    decoded := Kind.all }

/-- The body after a section has been found in its input. -/
def found {k : Kind} (b : Body) (s : Section k) : Body :=
  { b.update s with decoded := if b.wasDecoded k then b.decoded else b.decoded ++ [k] }

/-- Every section can be stored without loss of a field, in a blob whose length has a word. -/
def Storable (b : Body) : Prop :=
  ∀ k, (b.sections k).Fits ∧ (b.sections k).length < 2 ^ 31

theorem dispatch_of_decode_error {b : Body} {k : Kind} {blob : Bytes} {e : FieldError}
    (h : (b.sections k).decode blob = .error e) : b.dispatch k blob = .error (.field k e) := by
  rw [dispatch, h]

theorem dispatch_of_decode_ok {b : Body} {k : Kind} {blob : Bytes} {s : Section k}
    (h : (b.sections k).decode blob = .ok s) :
    b.dispatch k blob
      = if s.length = blob.length then .ok (b.found s)
        else .error (.lengthMismatch k blob.length s.length) := by
  rw [dispatch, h]
  rfl

/-- A body that accepts a blob has found the section that was read from it as a whole. -/
theorem dispatch_eq_ok_iff {b b' : Body} {k : Kind} {blob : Bytes} :
    b.dispatch k blob = .ok b' ↔
      ∃ s, (b.sections k).decode blob = .ok s ∧ s.length = blob.length ∧ b' = b.found s := by
  constructor
  · intro h
    cases hdecode : (b.sections k).decode blob with
    | error e =>
      rw [dispatch_of_decode_error hdecode] at h
      cases h
    | ok s =>
      rw [dispatch_of_decode_ok hdecode] at h
      by_cases hlength : s.length = blob.length
      · rw [if_pos hlength] at h
        exact ⟨s, rfl, hlength, (Except.ok.inj h).symm⟩
      · rw [if_neg hlength] at h
        cases h
  · rintro ⟨s, hs, hlength, rfl⟩
    rw [dispatch_of_decode_ok hs, if_pos hlength]

/-- The stored form of a section is accepted as a whole. -/
theorem dispatch_encode {k : Kind} {s : Section k} (h : s.Fits) (b : Body) :
    b.dispatch k s.encode = .ok (b.found s.stored) := by
  refine dispatch_eq_ok_iff.2 ⟨s.stored, Section.decode_encode h _, ?_, rfl⟩
  rw [Section.length_stored, Section.length_encode]

theorem cutAtNul_name (k : Kind) : cutAtNul k.name = k.name := by cases k <;> rfl

/-- Reading goes through the pairs of any sections, and finds each of them. -/
theorem path_pairs {b : Body} (hb : b.Storable) (ks : List Kind) {p : Progress}
    (hpending : p.pending = none) (hdeclared : p.tally.declared = some catalogCount)
    (hcomplete : p.tally.complete + ks.length ≤ Kind.all.length) :
    Progress.loop.Path p
      ((ks.flatMap fun k => [Token.string k.name, .bytes (b.sections k).encode]).map Token.kept)
      { body := ks.foldl (fun c k => c.found (b.sections k).stored) p.body
        pending := none
        tally := ⟨some catalogCount, p.tally.complete + ks.length⟩ } := by
  induction ks generalizing p with
  | nil =>
    obtain ⟨_, _, _, _⟩ := p
    cases hpending
    cases hdeclared
    exact .nil
  | cons k ks ih =>
    rw [List.length_cons] at hcomplete
    -- a pair is still owed, so the count is not met in front of the name nor of the blob
    have hunfinished : p.tally.finished = false := by
      rw [← Bool.not_eq_true, Tally.finished_iff]
      rintro ⟨count, hcount, heq⟩
      rw [hdeclared] at hcount
      cases hcount
      have hcatalog : catalogCount.toInt = Kind.all.length := by decide
      omega
    -- the path goes on behind the pair with one more token counted
    have hpair := ih (p := { body := p.body.found (b.sections k).stored, pending := none,
                             tally := p.tally.add }) rfl hdeclared
      (by show p.tally.complete + 1 + ks.length ≤ _; omega)
    have hname := Progress.takes_string hpending k.name
    have hblob := Progress.takes_bytes (p := { p with pending := some k.name }) rfl
      (dispatch_encode (hb k).1 p.body)
    rw [List.flatMap_cons, List.map_append]
    simp only [List.map_cons, List.map_nil, Token.kept, cutAtNul_name]
    refine .cons hunfinished hname (.cons hunfinished hblob ?_)
    rw [List.length_cons, Nat.add_comm ks.length, ← Nat.add_assoc]
    exact hpair

theorem sections_foldl_found (b : Body) (ks : List Kind) (c : Body) (k : Kind) :
    (ks.foldl (fun c k => c.found (b.sections k).stored) c).sections k
      = if k ∈ ks then (b.sections k).stored else c.sections k := by
  induction ks generalizing c with
  | nil => simp
  | cons j ks ih =>
    rw [List.foldl_cons, ih]
    by_cases hks : k ∈ ks
    · rw [if_pos hks, if_pos (List.mem_cons_of_mem j hks)]
    · by_cases hj : k = j
      · subst hj
        rw [if_neg hks, if_pos List.mem_cons_self]
        exact sections_update_self c _
      · rw [if_neg hks, if_neg (by simp [hks, hj])]
        exact sections_update_of_ne c _ hj

/-- Sections found for the first time are listed in the order in which they are found. -/
theorem decoded_foldl_found (b : Body) {ks : List Kind} (hnodup : ks.Nodup) {c : Body}
    (hnew : ∀ k ∈ ks, k ∉ c.decoded) :
    (ks.foldl (fun c k => c.found (b.sections k).stored) c).decoded = c.decoded ++ ks := by
  induction ks generalizing c with
  | nil => simp
  | cons k ks ih =>
    obtain ⟨hk, hks⟩ := List.nodup_cons.1 hnodup
    -- a kind that is not listed yet is put at the end of the list
    have hfound : (c.found (b.sections k).stored).decoded = c.decoded ++ [k] := by
      simp [found, wasDecoded, hnew k List.mem_cons_self]
    rw [List.foldl_cons, ih hks ?_, hfound, List.append_assoc, List.singleton_append]
    intro j hj
    rw [hfound, List.mem_append, List.mem_singleton]
    rintro (hold | rfl)
    · exact hnew j (List.mem_cons_of_mem k hj) hold
    · exact hk hj

/-- Finding every section of the catalog leaves nothing of an earlier body but its count. -/
theorem foldl_found_all (b : Body) {c : Body} (hc : c.decoded = []) :
    { Kind.all.foldl (fun c k => c.found (b.sections k).stored) c with tokenCount := catalogCount }
      = b.stored := by
  have hsections : (Kind.all.foldl (fun c k => c.found (b.sections k).stored) c).sections
      = b.stored.sections := by
    funext k
    rw [sections_foldl_found, if_pos k.mem_all]
    rfl
  have hdecoded := @decoded_foldl_found b Kind.all (by decide) c (by simp [hc])
  rw [hc, List.nil_append] at hdecoded
  exact congr (congrArg (Body.mk catalogCount) hsections) hdecoded

theorem bounded_of_mem_tokens {b : Body} (hb : b.Storable) {t : Token} (ht : t ∈ b.tokens) :
    t.Bounded := by
  rw [tokens, List.mem_cons] at ht
  rcases ht with rfl | ht
  · trivial
  · obtain ⟨k, _, hk⟩ := List.mem_flatMap.1 ht
    simp only [List.mem_cons, List.not_mem_nil, or_false] at hk
    rcases hk with rfl | rfl
    · trivial
    · show List.length _ < 2 ^ 31
      rw [Section.length_encode]
      exact (hb k).2

/-- A written body is read over any other, whatever follows it. -/
theorem decode_encode_append {b : Body} (hb : b.Storable) (old : Body) (rest : Bytes) :
    old.decode (b.encode ++ rest) = .ok (b.stored, b.encode.length) := by
  let start : Progress :=
    { body := { old with decoded := [] }, pending := none, tally := ⟨some catalogCount, 0⟩ }
  -- the count comes first, and a pair for each section of the catalog behind it
  have hpairs := path_pairs hb Kind.all (p := start) rfl rfl (Nat.le_of_eq (Nat.zero_add _))
  have hpath : Progress.loop.Path (.start old) (b.tokens.map Token.kept) _ :=
    .cons rfl (Progress.takes_tokenCount rfl catalogCount) hpairs
  have hrun := hpath.run rfl (fun _ => bounded_of_mem_tokens hb) 0 rest
  simp only [Nat.zero_add] at hrun
  show Except.bind (Progress.run _ _) _ = _
  refine (congrArg (Except.bind · _) hrun).trans ?_
  exact congrArg (fun body : Body => (Except.ok (body, b.encode.length) : Except DecodeError _))
    (foldl_found_all b (c := { old with decoded := [] }) rfl)

/-- A body can be stored when its section of remembered length has room for its fields, and the two
sections whose lengths vary are short enough. -/
theorem storable_of_lengths {b : Body} (hroom : 0x14 ≤ (b.sections .micLineStrips).length)
    (hremembered : (b.sections .micLineStrips).length < 2 ^ 31)
    (hfitted : (b.sections .strip).length < 2 ^ 31) : b.Storable := by
  intro k
  obtain rfl | rfl | ⟨n, hn, hlt⟩ := k.extent_cases
  · rw [← Section.reach_micLineStrips] at hroom
    exact ⟨Section.fits_of_reach_le hroom, hremembered⟩
  · exact ⟨Section.fits_of_reach_le (Section.reach_le_length _ (by decide)), hfitted⟩
  · have hlength := (b.sections k).length_of_fixed hn
    have hreach := Kind.reach_le_of_fixed hn
    exact ⟨Section.fits_of_reach_le (by omega), by omega⟩

end Body

/-! ## The preset -/

namespace Preset

/-- The preset that is read where a preset has been written. -/
def stored (p : Preset) : Preset :=
  { header := p.header.stored, body := p.body.stored }

theorem opening_encode_append (rest : Bytes) :
    opening ((Token.string magic).encode ++ rest)
      = .ok ⟨(Token.string magic).encode.length, rest⟩ := by
  have hread := @Token.read?_encode_append (.string magic) trivial 0 rest
  rw [Nat.zero_add] at hread
  obtain ⟨c, htag, hstring⟩ := Token.read?_eq_some hread
  have hexpect : (Cursor.start ((Token.string magic).encode ++ rest)).expectString
      = (.ok magic, ⟨(Token.string magic).encode.length, rest⟩) := by
    rw [Cursor.expectString, Cursor.start, htag]
    exact hstring
  rw [opening, hexpect]
  exact if_pos rfl

/-- A written preset is read from exactly the bytes it was written as, whatever follows it. -/
theorem takesFront_encode_append {p : Preset} (hp : p.body.Storable) (rest : Bytes) :
    TakesFront (p.encode ++ rest) p.stored p.encode.length := by
  -- each part is read in front of all that is written behind it
  have hopening := opening_encode_append (p.header.encode ++ (p.body.encode ++ rest))
  have hheader := Header.decode_encode_append .initial p.header (p.body.encode ++ rest)
  have hbody := Body.decode_encode_append hp .initial rest
  rw [← List.append_assoc, ← List.append_assoc] at hopening
  refine ⟨_, p.header.encode.length, p.body.encode.length, hopening, hheader, ?_, ?_⟩
  · show Body.initial.decode (List.drop _ (_ ++ _)) = _
    rw [List.drop_left]
    exact hbody
  · rw [encode, List.length_append, List.length_append]

/-- A preset that can be stored is read where it has been written. -/
theorem decode_encode_of_storable {p : Preset} (hp : p.body.Storable) :
    decode p.encode = .ok p.stored := by
  have htakes := takesFront_encode_append hp []
  rw [List.append_nil] at htakes
  exact decode_eq_ok_iff.2 ⟨_, htakes⟩

/-- A preset that is written and read again is the preset with its stored values, and reading takes
exactly the bytes that were written. -/
theorem decode_encode_eq_stored (p : Preset)
    (hroom : 0x14 ≤ (p.body.sections .micLineStrips).length)
    (hremembered : (p.body.sections .micLineStrips).length < 2 ^ 31)
    (hfitted : (p.body.sections .strip).encode.length < 2 ^ 31) :
    decode p.encode = .ok p.stored ∧ TakesFront p.encode p.stored p.encode.length := by
  rw [Section.length_encode] at hfitted
  have hp := Body.storable_of_lengths hroom hremembered hfitted
  have htakes := takesFront_encode_append hp []
  rw [List.append_nil] at htakes
  exact ⟨decode_encode_of_storable hp, htakes⟩

/-- A preset with values that storing changes: texts with a U+0000, a name of characters that
single-byte text does not hold, numbers that are none, and counts that fit nothing. -/
def unruly : Preset :=
  { header :=
      { tokenCount := -1, version := Int32.minValue
        fileType := "a\x00b", userComment := "é€" }
    body :=
      { tokenCount := 77
        sections := fun
          | .strip => (Section.initial .strip).assign "Channel Name" fun
            | .text => some "é€x\x00y"
            | _ => none
          | .audioMasterStrip => (Section.initial .audioMasterStrip).assign "Master Fader" fun
            | .scaled _ => some .nan
            | _ => none
          | .audioStrip => (Section.initial .audioStrip).assign "Delay" fun
            | .delay => some (.infinite true)
            | _ => none
          | k => .initial k
        decoded := [.strip, .strip] } }

theorem decode_encode_unruly :
    (0x14 ≤ (unruly.body.sections .micLineStrips).length
      ∧ (unruly.body.sections .micLineStrips).length < 2 ^ 31
      ∧ (unruly.body.sections .strip).encode.length < 2 ^ 31)
    ∧ decode unruly.encode = .ok unruly.stored
    ∧ TakesFront unruly.encode unruly.stored unruly.encode.length :=
  have hfitted : (unruly.body.sections .strip).encode.length < 2 ^ 31 := by decide +kernel
  ⟨⟨by decide, by decide, hfitted⟩,
    decode_encode_eq_stored unruly (by decide) (by decide) hfitted⟩

end Preset

end ChannelPreset
