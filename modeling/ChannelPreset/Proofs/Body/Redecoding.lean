import ChannelPreset.Proofs.Body.Contents

/-!
# Reading Over an Earlier Body

A body is read over the one that was there before. The sections that have a blob are the same as in
a new body, and the other ones stay as they were (`Body.decode_eq_map_laidOver_and_iff`). What is
read therefore depends on the history of the body (`Body.not_forall_decode_eq_of_decode`), unless
every section without a blob was as in a new body.
-/

namespace ChannelPreset

theorem exists_eq_ok_of_map_toOption {ε α β : Type} {x : Except ε α} {f : α → β} {b : β}
    (h : x.toOption.map f = some b) : ∃ a, x = .ok a ∧ f a = b := by
  cases x with
  | error e => cases h
  | ok a => exact ⟨a, rfl, Option.some.inj h⟩

namespace Body

variable {old b : Body} {bs : Bytes} {n : Nat}

/-- The body laid over an earlier one, which shows where the last decoding found no section. -/
def laidOver (b old : Body) : Body :=
  { b with sections := fun k => if b.wasDecoded k then b.sections k else old.sections k }

theorem sections_laidOver_of_wasDecoded {k : Kind} (h : b.wasDecoded k = true) :
    (b.laidOver old).sections k = b.sections k :=
  if_pos h

theorem sections_laidOver_of_not_wasDecoded {k : Kind} (h : b.wasDecoded k = false) :
    (b.laidOver old).sections k = old.sections k :=
  if_neg (by simp [h])

/-- A body laid over an earlier one is itself when that agrees with it on the sections that were not
found. -/
theorem laidOver_eq_self_iff :
    b.laidOver old = b ↔ ∀ k, b.wasDecoded k = false → old.sections k = b.sections k := by
  constructor
  · intro h k hk
    rw [← sections_laidOver_of_not_wasDecoded hk, h]
  · intro h
    have hsections : (b.laidOver old).sections = b.sections := by
      funext k
      cases hk : b.wasDecoded k with
      | true => exact sections_laidOver_of_wasDecoded hk
      | false => rw [sections_laidOver_of_not_wasDecoded hk, h k hk]
    -- laying a body over another one changes nothing but the sections
    show { b with sections := (b.laidOver old).sections } = b
    rw [hsections]

theorem wasDecoded_found_iff {j k : Kind} (b : Body) (s : Section k) :
    (b.found s).wasDecoded j = true ↔ b.wasDecoded j = true ∨ j = k := by
  unfold found wasDecoded
  split
  · rename_i hk
    -- a section that is found again is listed already
    rw [or_iff_left_of_imp fun hj => hj ▸ hk]
  · simp

/-- A section that is found over an earlier body is found in its place. -/
theorem found_laidOver {k : Kind} (b old : Body) (s : Section k) :
    (b.laidOver old).found s = (b.found s).laidOver old := by
  have hsections : ((b.laidOver old).found s).sections = ((b.found s).laidOver old).sections := by
    funext j
    show ((b.laidOver old).update s).sections j
      = if (b.found s).wasDecoded j then (b.update s).sections j else old.sections j
    by_cases hj : j = k
    · subst hj
      -- the section itself is taken from the upper body, since it is listed now
      rw [if_pos ((wasDecoded_found_iff b s).2 (Or.inr rfl)), sections_update_self,
        sections_update_self]
    · simp only [wasDecoded_found_iff, hj, or_false, ne_eq, not_false_eq_true,
        sections_update_of_ne]
      rfl
  exact congrArg (fun sections => { (b.found s) with sections }) hsections

/-- The body laid over an earlier one whose count has not been replaced yet. -/
def laidOverUncounted (b old : Body) : Body :=
  { b.laidOver old with tokenCount := old.tokenCount }

theorem found_laidOverUncounted {k : Kind} (b old : Body) (s : Section k) :
    (b.laidOverUncounted old).found s = (b.found s).laidOverUncounted old :=
  congrArg (fun c => { c with tokenCount := old.tokenCount }) (found_laidOver b old s)

/-- A change of a body that finding a section carries along is carried along by a blob. -/
theorem dispatch_map {f : Body → Body} {k : Kind} (b : Body) (blob : Bytes)
    (hfound : ∀ s : Section k, (f b).found s = f (b.found s)) :
    (f b).dispatch k blob = (b.dispatch k blob).map f := by
  -- what is read from the blob does not depend on the section it is read over
  have hsame := Section.decode_congr ((f b).sections k) (b.sections k) blob
  cases hdecode : (b.sections k).decode blob with
  | error e =>
    rw [dispatch_of_decode_error hdecode, dispatch_of_decode_error (hsame.trans hdecode)]
    rfl
  | ok s =>
    rw [dispatch_of_decode_ok hdecode, dispatch_of_decode_ok (hsame.trans hdecode), hfound]
    by_cases hlength : s.length = blob.length
    · rw [if_pos hlength, if_pos hlength]
      rfl
    · rw [if_neg hlength, if_neg hlength]
      rfl

namespace Progress

/-- The progress with its body laid over an earlier one. -/
def laidOver (p : Progress) (old : Body) : Progress :=
  { p with body := p.body.laidOverUncounted old }

/-- Reading over an earlier body begins as reading into a new one does. -/
theorem start_laidOver (old : Body) : (start initial).laidOver old = start old := rfl

theorem apply_laidOver (p : Progress) (old : Body) (move : Move) :
    (p.laidOver old).apply move = (p.apply move).map (·.laidOver old) := by
  cases move with
  | count declared => rfl
  | name text => rfl
  | blob k blob =>
    have hdispatch : (p.laidOver old).body.dispatch k blob
        = (p.body.dispatch k blob).map (·.laidOverUncounted old) :=
      dispatch_map (f := (·.laidOverUncounted old)) p.body blob (found_laidOverUncounted p.body old)
    cases h : p.body.dispatch k blob with
    | error e => simp only [apply, hdispatch, h, Except.map]
    | ok body =>
      simp only [apply, hdispatch, h, Except.map]
      rfl

theorem step_laidOver (p : Progress) (old : Body) (c : Cursor) :
    loop.step (p.laidOver old) c = (loop.step p c).map fun y => (y.1.laidOver old, y.2) := by
  show ((p.laidOver old).next c).bind _ = ((p.next c).bind _).map _
  -- which token comes next depends on the pending name and the tally alone
  have hnext : (p.laidOver old).next c = p.next c := rfl
  rw [hnext]
  cases p.next c with
  | error e => rfl
  | ok y =>
    show ((p.laidOver old).apply y.1).map _ = ((p.apply y.1).map _).map _
    rw [apply_laidOver]
    cases p.apply y.1 <;> rfl

end Progress

/-- A body is read over an earlier one as into a new one that is then laid over it. -/
theorem decode_eq_map_laidOver (old : Body) (bs : Bytes) :
    old.decode bs = (initial.decode bs).map fun y => (y.1.laidOver old, y.2) := by
  rw [decode_eq_map, decode_eq_map, ← Progress.start_laidOver,
    Progress.loop.run_map (f := (·.laidOver old)) (fun _ => rfl)
      (fun p => Progress.step_laidOver p old)]
  -- the count is replaced at the end of both runs
  cases Progress.loop.run (.start initial) (.start bs) <;> rfl

/-- A section without a blob is as in a new body. -/
theorem sections_of_decode (h : initial.decode bs = .ok (b, n)) {k : Kind}
    (hk : b.wasDecoded k = false) : b.sections k = .initial k := by
  -- reading over a new body is reading into one
  have hover := decode_eq_map_laidOver initial bs
  rw [h] at hover
  have hself : b.laidOver initial = b := (congrArg Prod.fst (Except.ok.inj hover)).symm
  exact (laidOver_eq_self_iff.1 hself k hk).symm

/-- What is read over an earlier body is what is read into a new one, but for the sections without a
blob, which stay as they were. It is the same exactly when these were as in a new body. -/
theorem decode_eq_map_laidOver_and_iff (old : Body) (bs : Bytes) :
    old.decode bs = (initial.decode bs).map (fun y => (y.1.laidOver old, y.2)) ∧
      ∀ b n, initial.decode bs = .ok (b, n) →
        (old.decode bs = .ok (b, n) ↔
          ∀ k, b.wasDecoded k = false → old.sections k = .initial k) := by
  refine ⟨decode_eq_map_laidOver old bs, fun b n h => ?_⟩
  have hold : old.decode bs = .ok (b.laidOver old, n) := by
    rw [decode_eq_map_laidOver, h]
    rfl
  rw [hold, Except.ok.injEq, Prod.mk.injEq, and_iff_left rfl, laidOver_eq_self_iff]
  exact forall₂_congr fun k hk => by rw [sections_of_decode h hk]

/-- A later input that has blobs of the same sections is read as into a new body. -/
theorem decode_eq_map_laidOver_and_iff_repeatedPairs :
    ∃ old b, initial.decode (bytesOf distinctPairs) = .ok (old, 49) ∧
      initial.decode (bytesOf repeatedPairs) = .ok (b, 69) ∧
      old.decode (bytesOf repeatedPairs) = .ok (b, 69) := by
  obtain ⟨⟨old, n⟩, hold, hfirst⟩ := exists_eq_ok_of_map_toOption
    (b := (distinctPairs.map Prod.fst, 49)) (f := fun y => (y.1.decoded, y.2))
    (x := initial.decode (bytesOf distinctPairs))
    (by decide +kernel)
  obtain ⟨⟨b, m⟩, hnew, hsecond⟩ := exists_eq_ok_of_map_toOption
    (b := (distinctPairs.map Prod.fst, 69)) (f := fun y => (y.1.decoded, y.2))
    (x := initial.decode (bytesOf repeatedPairs))
    (by decide +kernel)
  obtain ⟨hdecoded, rfl⟩ := Prod.mk.inj hfirst
  obtain ⟨hdecoded', rfl⟩ := Prod.mk.inj hsecond
  refine ⟨old, b, hold, hnew, ?_⟩
  refine ((decode_eq_map_laidOver_and_iff old _).2 b 69 hnew).2 fun k hk => ?_
  -- both inputs have blobs of the same sections
  refine sections_of_decode hold ?_
  rwa [wasDecoded, show old.decoded = b.decoded from hdecoded.trans hdecoded'.symm]

/-- A body that has been read over another one can hold sections of that one. -/
theorem not_forall_decode_eq_of_decode :
    ¬ ∀ first second old b n m, initial.decode first = .ok (old, n) →
      initial.decode second = .ok (b, m) → old.decode second = .ok (b, m) := by
  intro h
  -- the first input sets the mode of the busses, and the second one has no blob for it
  let first := bytesOf [(.busConfigMode, [2, 0, 0, 0])]
  let second := bytesOf [(.stripType, [1, 0, 0, 0])]
  let mode (y : Body × Nat) : Bytes := (y.1.sections .busConfigMode).encode
  obtain ⟨⟨old, n⟩, hold, hstale⟩ := exists_eq_ok_of_map_toOption (b := some [2, 0, 0, 0])
    (f := fun y => (y.1.decode second).toOption.map mode) (x := initial.decode first)
    (by decide +kernel)
  obtain ⟨⟨b, m⟩, hnew, hmode⟩ := exists_eq_ok_of_map_toOption (b := [0, 0, 0, 0])
    (f := mode) (x := initial.decode second) (by decide +kernel)
  have hdecode := h first second old b n m hold hnew
  dsimp only at hstale
  rw [hdecode] at hstale
  cases hmode.symm.trans (Option.some.inj hstale)

end Body

end ChannelPreset
