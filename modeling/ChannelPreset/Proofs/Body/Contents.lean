import ChannelPreset.Proofs.Body.Grammar

/-!
# What a Body Holds

The bytes that a body is read from determine its pairs of a section and a blob (`Body.Dispatches`),
and the pairs determine what the body holds (`Body.Holds`): of every section what its last blob
says, and the sections that have a blob in the order of their first ones. Where no section has two
blobs, the order of the pairs has no part in this (`Body.holds_of_decode`).
-/

namespace ChannelPreset

/-- The last member stays only if it is not among the earlier ones. -/
theorem eraseDups_concat {α : Type} [DecidableEq α] (as : List α) (a : α) :
    (as ++ [a]).eraseDups = if a ∈ as then as.eraseDups else as.eraseDups ++ [a] := by
  rw [List.eraseDups_append]
  split <;> simp [List.removeAll, List.eraseDups_cons, *]

theorem nodup_eraseDups {α : Type} [DecidableEq α] (as : List α) : as.eraseDups.Nodup := by
  induction as using List.reverseRecOn with
  | nil => simp
  | append_singleton as a ih =>
    rw [eraseDups_concat]
    split
    · exact ih
    · rename_i hnew
      simpa [List.nodup_append, ih] using fun b hb => ne_of_mem_of_not_mem hb hnew

namespace Body

/-- The blob of a pair that is one of some section. -/
def blobOf? (k : Kind) (p : Kind × Bytes) : Option Bytes :=
  if p.1 = k then some p.2 else none

/-- The pairs that stand in the first `n` bytes of a string, one behind the other. A count among
them is no part of them, and neither is a name that has no blob. -/
def Dispatches (bs : Bytes) (n : Nat) (pairs : List (Kind × Bytes)) : Prop :=
  ∃ tokens declared pending, Token.Reads (.start bs) tokens ⟨n, bs.drop n⟩ ∧
    spelling.Spells tokens declared pairs pending

/-- What a body holds after pairs have been read into a new one. -/
structure Holds (b : Body) (pairs : List (Kind × Bytes)) : Prop where
  /-- A section is what its last blob says, and a new one without a blob. -/
  section_eq (k : Kind) :
    match last? (blobOf? k) pairs with
    | some blob => (Section.initial k).decode blob = .ok (b.sections k)
    | none => b.sections k = .initial k
  /-- The sections with a blob are listed in the order of their first ones. -/
  decoded_eq : b.decoded = (pairs.map Prod.fst).eraseDups
  nodup_decoded : b.decoded.Nodup
  wasDecoded_iff (k : Kind) : b.wasDecoded k ↔ k ∈ pairs.map Prod.fst
  tokenCount_eq : b.tokenCount.toInt = pairs.length

/-! ## Pairs one after the other -/

variable {start made b : Body} {pairs pairs' : List (Kind × Bytes)} {bs : Bytes} {n : Nat}

/-- The last pair puts its section into what has been made of the others. -/
theorem exists_found_of_foldlM_concat {k : Kind} {blob : Bytes}
    (h : (pairs ++ [(k, blob)]).foldlM store start = some made) :
    ∃ front s, pairs.foldlM store start = some front ∧ (Section.initial k).decode blob = .ok s ∧
      made = front.found s := by
  obtain ⟨front, hfront, hstore⟩ := foldlM_concat_eq_some.1 h
  obtain ⟨s, hs, -, hfound⟩ := store_eq_some_iff.1 hstore
  exact ⟨front, s, hfront, hs, hfound⟩

/-- Of all blobs of a section the last one is kept. -/
theorem section_of_foldlM (h : pairs.foldlM store start = some made) (k : Kind) :
    match last? (blobOf? k) pairs with
    | some blob => (Section.initial k).decode blob = .ok (made.sections k)
    | none => made.sections k = start.sections k := by
  induction pairs using List.reverseRecOn generalizing made with
  | nil =>
    obtain rfl := Option.some_inj.1 h
    rfl
  | append_singleton pairs p ih =>
    obtain ⟨j, blob⟩ := p
    obtain ⟨front, s, hfront, hs, rfl⟩ := exists_found_of_foldlM_concat h
    rw [last?_concat]
    by_cases hj : j = k
    · subst hj
      have hsection : (front.found s).sections j = s := sections_update_self front s
      simpa [blobOf?, hsection] using hs
    · -- the sections of other kinds stay as they are
      have hsection : (front.found s).sections k = front.sections k :=
        sections_update_of_ne front s (Ne.symm hj)
      simpa [blobOf?, hj, hsection] using ih hfront

/-- Sections are listed when they are found for the first time. -/
theorem decoded_of_foldlM (h : pairs.foldlM store start = some made)
    (hstart : start.decoded = []) : made.decoded = (pairs.map Prod.fst).eraseDups := by
  induction pairs using List.reverseRecOn generalizing made with
  | nil =>
    obtain rfl := Option.some_inj.1 h
    exact hstart
  | append_singleton pairs p ih =>
    obtain ⟨j, blob⟩ := p
    obtain ⟨front, s, hfront, -, rfl⟩ := exists_found_of_foldlM_concat h
    -- a section is listed already when one of the earlier blobs is its own
    have hlisted : front.wasDecoded j ↔ j ∈ pairs.map Prod.fst := by
      simp [wasDecoded, ih hfront]
    rw [List.map_append, List.map_singleton, eraseDups_concat]
    simp only [found, hlisted, ih hfront]

/-! ## Pairs in another order -/

/-- Where every section has one blob, the pairs say which one it is. -/
theorem last?_blobOf?_eq_some_iff (hnodup : (pairs.map Prod.fst).Nodup) {k : Kind} {blob : Bytes} :
    last? (blobOf? k) pairs = some blob ↔ (k, blob) ∈ pairs := by
  induction pairs using List.reverseRecOn with
  | nil => simp
  | append_singleton pairs p ih =>
    obtain ⟨j, other⟩ := p
    rw [List.map_append, List.nodup_append] at hnodup
    obtain ⟨hfront, -, hnew⟩ := hnodup
    rw [last?_concat, List.mem_append, List.mem_singleton]
    by_cases hj : j = k
    · subst hj
      -- no earlier blob is one of the last section
      have hnone : ∀ blob, (j, blob) ∉ pairs := fun blob hmem =>
        hnew j (List.mem_map_of_mem hmem) j (by simp) rfl
      simp [blobOf?, hnone, eq_comm]
    · simp [blobOf?, hj, Ne.symm hj, ih hfront]

/-- Where every section has one blob, the order of the pairs has no part in what is read. -/
theorem last?_blobOf?_eq_of_perm (hperm : pairs.Perm pairs') (hnodup : (pairs.map Prod.fst).Nodup)
    (k : Kind) : last? (blobOf? k) pairs = last? (blobOf? k) pairs' := by
  have hnodup' : (pairs'.map Prod.fst).Nodup := (hperm.map Prod.fst).nodup_iff.1 hnodup
  refine Option.ext fun blob => ?_
  rw [last?_blobOf?_eq_some_iff hnodup, last?_blobOf?_eq_some_iff hnodup', hperm.mem_iff]

/-- Bodies that hold the same last blobs have the same sections. -/
theorem Holds.sections_eq_of_last {b' : Body} (h : b.Holds pairs) (h' : b'.Holds pairs')
    (hlast : ∀ k, last? (blobOf? k) pairs = last? (blobOf? k) pairs') :
    b'.sections = b.sections := by
  funext k
  have hsection := h.section_eq k
  have hsection' := h'.section_eq k
  rw [hlast k] at hsection
  cases hblob : last? (blobOf? k) pairs' with
  | none =>
    simp only [hblob] at hsection hsection'
    rw [hsection, hsection']
  | some blob =>
    simp only [hblob] at hsection hsection'
    exact Except.ok.inj (hsection'.symm.trans hsection)

/-! ## The pairs of a body -/

/-- The bytes that a body is read from have one list of pairs. -/
theorem Dispatches.unique (h : Dispatches bs n pairs) (h' : Dispatches bs n pairs') :
    pairs = pairs' := by
  obtain ⟨tokens, declared, pending, hreads, hspells⟩ := h
  obtain ⟨tokens', declared', pending', hreads', hspells'⟩ := h'
  obtain rfl := hreads.eq_of_position_eq hreads' rfl
  refine Spelling.eq_of_flatMap_pair_append_eq ?_ (hspells.others_eq.symm.trans hspells'.others_eq)
  rintro ⟨k, blob⟩ ⟨k', blob'⟩ hname hvalue
  -- no two sections have one name
  have hkind : Kind.ofName? k.name = Kind.ofName? k'.name := congrArg Kind.ofName? hname
  rw [Kind.ofName?_name, Kind.ofName?_name] at hkind
  exact Prod.ext (Option.some_inj.1 hkind) (Token.bytes.inj hvalue)

theorem exists_dispatches_of_decode (h : initial.decode bs = .ok (b, n)) :
    ∃ pairs, Dispatches bs n pairs ∧ b.Holds pairs := by
  obtain ⟨tokens, count, pairs, pending, made, hreads, hbegins, hmade, hcount, rfl⟩ :=
    decode_eq_ok_iff.1 h
  have hdecoded := decoded_of_foldlM hmade rfl
  refine ⟨pairs, ⟨tokens, some count, pending, hreads, hbegins.toSpells⟩, ?_⟩
  exact {
    section_eq := section_of_foldlM hmade
    decoded_eq := hdecoded
    nodup_decoded := hdecoded ▸ nodup_eraseDups _
    wasDecoded_iff := fun k => by simp [wasDecoded, hdecoded]
    tokenCount_eq := hcount }

/-- A body that is read into a new one holds what its pairs say. In particular two bodies whose
pairs are the same but for their order, with one blob for each section, have the same sections. -/
theorem holds_of_decode (h : initial.decode bs = .ok (b, n)) :
    (∃ pairs, Dispatches bs n pairs) ∧
      ∀ pairs, Dispatches bs n pairs → b.Holds pairs ∧
        ∀ bs' b' n' pairs', initial.decode bs' = .ok (b', n') → Dispatches bs' n' pairs' →
          pairs.Perm pairs' → (pairs.map Prod.fst).Nodup → b'.sections = b.sections := by
  obtain ⟨found, hfound, hholds⟩ := exists_dispatches_of_decode h
  refine ⟨⟨found, hfound⟩, fun pairs hpairs => ?_⟩
  obtain rfl := hpairs.unique hfound
  refine ⟨hholds, fun bs' b' n' pairs' h' hpairs' hperm hnodup => ?_⟩
  obtain ⟨found', hfound', hholds'⟩ := exists_dispatches_of_decode h'
  obtain rfl := hpairs'.unique hfound'
  exact hholds.sections_eq_of_last hholds' (last?_blobOf?_eq_of_perm hperm hnodup)

/-- The tokens of pairs with their count in front of them. -/
def tokensOf (pairs : List (Kind × Bytes)) : List Token :=
  .tokenCount (Int32.ofNat pairs.length) :: pairs.flatMap spelling.pair

/-- The bytes of pairs with their count in front of them. -/
def bytesOf (pairs : List (Kind × Bytes)) : Bytes :=
  Token.encodeAll (tokensOf pairs)

/-- Two blobs of one section, and one of another between them. -/
def repeatedPairs : List (Kind × Bytes) :=
  [(.stripType, [1, 0, 0, 0]), (.busConfigMode, [2, 0, 0, 0]), (.stripType, [3, 0, 0, 0])]

/-- Two sections with a blob each. -/
def distinctPairs : List (Kind × Bytes) :=
  [(.stripType, [1, 0, 0, 0]), (.busConfigMode, [2, 0, 0, 0])]

theorem holds_of_decode_bytesOf :
    (∃ b, initial.decode (bytesOf repeatedPairs) = .ok (b, 69) ∧ b.Holds repeatedPairs) ∧
      ∃ b b', initial.decode (bytesOf distinctPairs) = .ok (b, 49) ∧
        initial.decode (bytesOf distinctPairs.reverse) = .ok (b', 49) ∧
        b'.sections = b.sections := by
  have hrepeated : ∃ b, initial.decode (bytesOf repeatedPairs) = .ok (b, 69) :=
    exists_decode_iff.2 ⟨tokensOf repeatedPairs, 3, repeatedPairs, none, by decide +kernel⟩
  have hdistinct : ∃ b, initial.decode (bytesOf distinctPairs) = .ok (b, 49) :=
    exists_decode_iff.2 ⟨tokensOf distinctPairs, 2, distinctPairs, none, by decide +kernel⟩
  have hreverse : ∃ b, initial.decode (bytesOf distinctPairs.reverse) = .ok (b, 49) :=
    exists_decode_iff.2
      ⟨tokensOf distinctPairs.reverse, 2, distinctPairs.reverse, none, by decide +kernel⟩
  obtain ⟨b₁, hb₁⟩ := hrepeated
  obtain ⟨b₂, hb₂⟩ := hdistinct
  obtain ⟨b₃, hb₃⟩ := hreverse
  have hholds := (holds_of_decode hb₁).2 repeatedPairs
    ⟨tokensOf repeatedPairs, some 3, none, by decide +kernel⟩
  have hsections := (holds_of_decode hb₂).2 distinctPairs
    ⟨tokensOf distinctPairs, some 2, none, by decide +kernel⟩
  refine ⟨⟨b₁, hb₁, hholds.1⟩, b₂, b₃, hb₂, hb₃, ?_⟩
  exact hsections.2 _ b₃ _ distinctPairs.reverse hb₃
    ⟨tokensOf distinctPairs.reverse, some 2, none, by decide +kernel⟩
    (List.reverse_perm distinctPairs).symm (by decide)

end Body

end ChannelPreset
