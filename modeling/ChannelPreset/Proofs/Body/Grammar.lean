import ChannelPreset.Proofs.Preset.Extension
import ChannelPreset.Proofs.Preset.Pairs
import ChannelPreset.Proofs.Preset.Settling

/-!
# The Grammar of Bodies

A body is read from pairs of a section and a blob that the section takes as a whole
(`Kind.Accepts`). Reading accepts the tokens of such pairs and a count, up to the first place where
the count is the number of blobs, and tells what is missing where the stream ends before that
(`Body.decode_iff_begins`). What a body held before has no part in this.
-/

namespace ChannelPreset

namespace Kind

/-- A section takes a blob as a whole. -/
def Accepts (k : Kind) (blob : Bytes) : Prop :=
  ∃ s, (Section.initial k).decode blob = .ok s ∧ s.length = blob.length

instance (k : Kind) (blob : Bytes) : Decidable (k.Accepts blob) :=
  match h : (Section.initial k).decode blob with
  | .error _ => isFalse (by simp [Accepts, h])
  | .ok s => decidable_of_iff (s.length = blob.length) (by simp [Accepts, h])

end Kind

namespace Body

/-- How the pairs of a body are written. -/
def spelling : Spelling (Kind × Bytes) where
  name p := p.1.name
  value p := .bytes p.2
  value_count? _ := rfl

/-- The body with the section of one more pair, if that takes its blob. -/
def store (b : Body) (p : Kind × Bytes) : Option Body :=
  (b.dispatch p.1 p.2).toOption

theorem store_eq_some_iff_dispatch {b b' : Body} {k : Kind} {blob : Bytes} :
    b.store (k, blob) = some b' ↔ b.dispatch k blob = .ok b' := by
  unfold store
  cases b.dispatch k blob <;> simp [Except.toOption]

/-- A body puts the section that has been read from an accepted blob in the place of its own. -/
theorem store_eq_some_iff {b b' : Body} {k : Kind} {blob : Bytes} :
    b.store (k, blob) = some b' ↔
      ∃ s, (Section.initial k).decode blob = .ok s ∧ s.length = blob.length ∧ b' = b.found s := by
  rw [store_eq_some_iff_dispatch, dispatch_eq_ok_iff,
    Section.decode_congr (b.sections k) (.initial k)]

/-- A body takes pairs one after the other when each section takes its blob. -/
theorem exists_foldlM_store_iff {b : Body} {pairs : List (Kind × Bytes)} :
    (∃ made, pairs.foldlM store b = some made) ↔ ∀ p ∈ pairs, p.1.Accepts p.2 := by
  induction pairs generalizing b with
  | nil => simp
  | cons p pairs ih =>
    obtain ⟨k, blob⟩ := p
    rw [List.forall_mem_cons, List.foldlM_cons]
    constructor
    · rintro ⟨made, hmade⟩
      obtain ⟨b', hstore, hmade⟩ := Option.bind_eq_some_iff.1 hmade
      obtain ⟨s, hs, hlength, -⟩ := store_eq_some_iff.1 hstore
      exact ⟨⟨s, hs, hlength⟩, ih.1 ⟨made, hmade⟩⟩
    · rintro ⟨⟨s, hs, hlength⟩, hpairs⟩
      rw [store_eq_some_iff.2 ⟨s, hs, hlength, rfl⟩]
      exact ih.2 hpairs

/-- Every pair has one blob. -/
theorem blobs_flatMap_pair (pairs : List (Kind × Bytes)) :
    Token.blobs (pairs.flatMap spelling.pair) = pairs.length := by
  induction pairs with
  | nil => rfl
  | cons p pairs ih =>
    have hpair : Token.blobs (spelling.pair p) = 1 := rfl
    rw [List.flatMap_cons, Token.blobs_append, hpair, ih, List.length_cons, Nat.add_comm]

/-- As many pairs are complete as there are blobs. -/
theorem blobs_eq_length {tokens : List Token} {declared : Option Int32}
    {pairs : List (Kind × Bytes)} {pending : Option String}
    (h : spelling.Spells tokens declared pairs pending) : Token.blobs tokens = pairs.length := by
  have hpending : Token.blobs (pending.map Token.string).toList = 0 := by
    cases pending <;> rfl
  rw [← Token.blobs_others, h.others_eq, Token.blobs_append, blobs_flatMap_pair, hpending,
    Nat.add_zero]

/-! ## The loop -/

namespace Progress

/-- A body takes a token as its spelling says. -/
theorem step_eq_ok_iff {p : Reading Body} {q : Progress} {c c' : Cursor} :
    loop.step ⟨p.made, p.pending, p.tally⟩ c = .ok (q, c') ↔
      ∃ token r, Token.read? c = some (token, c') ∧ spelling.Takes store p token r ∧
        q = ⟨r.made, r.pending, r.tally⟩ := by
  obtain ⟨made, pending, tally⟩ := p
  constructor
  · intro hstep
    obtain ⟨move, hnext, happly⟩ := exists_next hstep
    rcases next_cases hnext with
      ⟨count, hread, hnone, rfl⟩ | ⟨text, hread, rfl, rfl⟩ | ⟨k, blob, hread, rfl, rfl⟩
    · obtain rfl := Except.ok.inj happly
      exact ⟨_, _, hread, .count count hnone, rfl⟩
    · obtain rfl := Except.ok.inj happly
      exact ⟨_, _, hread, .name text, rfl⟩
    · obtain ⟨body, hdispatch, rfl⟩ := exists_dispatch_of_apply happly
      exact ⟨_, _, hread, .value (k, blob) (store_eq_some_iff_dispatch.2 hdispatch), rfl⟩
  · rintro ⟨token, r, hread, htakes, rfl⟩
    cases htakes with
    | count count hnone => exact takes_tokenCount hnone count _ _ hread
    | name text => exact takes_string rfl text _ _ hread
    | value p hstore => exact takes_bytes rfl (store_eq_some_iff_dispatch.1 hstore) _ _ hread

theorem step_of_end {p : Progress} {c : Cursor} (h : c.rest = []) :
    loop.step p c = .error p.tally.shortfall := by
  show (p.next c).bind _ = _
  rw [next, Cursor.tag_of_end h]
  rfl

/-- The loop of a body reads pairs. -/
def pairLoop : PairLoop (Kind × Bytes) Body Progress where
  toLoop := loop
  spelling := spelling
  store := store
  complete := Token.blobs
  complete_eq := blobs_eq_length
  state p := ⟨p.made, p.pending, p.tally⟩
  finished_state _ := rfl
  step_state_eq_ok_iff := step_eq_ok_iff
  step_state_of_end := step_of_end

end Progress

/-! ## The grammar -/

/-- The body with nothing found yet, into which sections are read. -/
def cleared (b : Body) : Body := { b with decoded := [] }

variable {old b : Body} {bs : Bytes} {n : Nat}

/-- A body is made of the pairs that are read up to the first place where the count is met. -/
theorem decode_eq_ok_iff :
    old.decode bs = .ok (b, n) ↔
      ∃ tokens count pairs pending made,
        Token.Reads (.start bs) tokens ⟨n, bs.drop n⟩ ∧
        spelling.Begins Token.blobs tokens (some count) pairs pending ∧
        pairs.foldlM store old.cleared = some made ∧ count.toInt = pairs.length ∧
        b = { made with tokenCount := count } := by
  rw [decode_eq_map]
  refine (Progress.pairLoop.map_run_eq_ok_iff Progress.result).trans ?_
  -- the count that is kept is the number of pairs
  refine exists₅_congr fun tokens count pairs pending made => and_congr_right fun _ =>
    and_congr_right fun _ => and_congr_right fun _ => and_congr_right fun hcount => ?_
  rw [← ofNat_eq_of_toInt_eq hcount]
  rfl

/-- A body is accepted when its sections accept the blobs up to the first place where the count is
met. -/
theorem exists_decode_iff :
    (∃ b, old.decode bs = .ok (b, n)) ↔
      ∃ tokens count pairs pending,
        Token.Reads (.start bs) tokens ⟨n, bs.drop n⟩ ∧
        spelling.Begins Token.blobs tokens (some count) pairs pending ∧
        (∀ p ∈ pairs, p.1.Accepts p.2) ∧
        count.toInt = Token.blobs tokens := by
  constructor
  · rintro ⟨b, hdecode⟩
    obtain ⟨tokens, count, pairs, pending, made, hreads, hbegins, hmade, hcount, -⟩ :=
      decode_eq_ok_iff.1 hdecode
    have haccepts := exists_foldlM_store_iff.1 ⟨made, hmade⟩
    rw [← blobs_eq_length hbegins.toSpells] at hcount
    exact ⟨tokens, count, pairs, pending, hreads, hbegins, haccepts, hcount⟩
  · rintro ⟨tokens, count, pairs, pending, hreads, hbegins, haccepts, hcount⟩
    obtain ⟨made, hmade⟩ := exists_foldlM_store_iff.2 haccepts
    rw [blobs_eq_length hbegins.toSpells] at hcount
    exact ⟨_, decode_eq_ok_iff.2
      ⟨tokens, count, pairs, pending, made, hreads, hbegins, hmade, hcount, rfl⟩⟩

/-- A body that ends before its count is met is refused because of that. -/
theorem decode_of_end {tokens : List Token} {declared : Option Int32}
    {pairs : List (Kind × Bytes)} {pending : Option String}
    (hreads : Token.Reads (.start bs) tokens ⟨n, []⟩)
    (hbegins : spelling.Begins Token.blobs tokens declared pairs pending)
    (haccepts : ∀ p ∈ pairs, p.1.Accepts p.2) (hunmet : Spelling.Unmet Token.blobs tokens) :
    old.decode bs = .error (Tally.shortfall ⟨declared, Token.blobs tokens⟩) := by
  obtain ⟨made, hmade⟩ := exists_foldlM_store_iff.2 haccepts
  rw [decode_eq_map, blobs_eq_length hbegins.toSpells]
  exact Progress.pairLoop.map_run_of_end Progress.result hreads hbegins hmade hunmet

/-- A body is read from pairs of its spelling, whose blobs are accepted, and a count, up to the
first place where the count is the number of blobs. Where the stream ends in front of such a place,
and everything up to its end could begin a body, the body is refused because there is no count, or
because the count is not the number of blobs. -/
theorem decode_iff_begins (old : Body) (bs : Bytes) :
    (∀ n, (∃ b, old.decode bs = .ok (b, n)) ↔
      ∃ tokens count pairs pending,
        Token.Reads (.start bs) tokens ⟨n, bs.drop n⟩ ∧
        spelling.Begins Token.blobs tokens (some count) pairs pending ∧
        (∀ p ∈ pairs, p.1.Accepts p.2) ∧
        count.toInt = Token.blobs tokens) ∧
    ∀ tokens declared pairs pending n,
      Token.Reads (.start bs) tokens ⟨n, []⟩ →
      spelling.Begins Token.blobs tokens declared pairs pending →
      (∀ p ∈ pairs, p.1.Accepts p.2) →
      Spelling.Unmet Token.blobs tokens →
      old.decode bs = .error (match declared with
        | none => .missingTokenCount
        | some count => .countMismatch count (Token.blobs tokens)) := by
  refine ⟨fun n => exists_decode_iff, ?_⟩
  intro tokens declared pairs pending n hreads hbegins haccepts hunmet
  have hend : old.decode bs = _ := decode_of_end hreads hbegins haccepts hunmet
  -- what is missing is the count, or blobs for it
  cases declared <;> exact hend

/-- The tokens of a body with one section, the name of another, and the count at the end. -/
def danglingTokens : List Token :=
  [.string "StripType", .bytes [1, 0, 0, 0], .string "Strip", .tokenCount 1]

/-- The tokens of a body that ends before its count is met. -/
def shortTokens : List Token :=
  [.string "StripType", .tokenCount 2, .bytes [1, 0, 0, 0]]

theorem decode_iff_begins_of_tokens :
    (∃ b, initial.decode (Token.encodeAll danglingTokens) = .ok (b, 32)) ∧
      initial.decode (Token.encodeAll shortTokens) = .error (.countMismatch 2 1) := by
  obtain ⟨hiff, -⟩ := decode_iff_begins initial (Token.encodeAll danglingTokens)
  obtain ⟨-, hend⟩ := decode_iff_begins initial (Token.encodeAll shortTokens)
  refine ⟨(hiff 32).2 ⟨danglingTokens, 1, [(.stripType, [1, 0, 0, 0])], some "Strip", ?_⟩, ?_⟩
  · decide +kernel
  · exact hend shortTokens (some 2) [(.stripType, [1, 0, 0, 0])] none 25
      (by decide +kernel) (by decide +kernel) (by decide +kernel) (by decide +kernel)

end Body

end ChannelPreset
