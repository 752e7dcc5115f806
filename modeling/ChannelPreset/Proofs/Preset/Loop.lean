import ChannelPreset.Preset.Body
import ChannelPreset.Preset.Header
import ChannelPreset.Proofs.Token.Sequence

/-!
# Reading Loops

The header and the body of a preset are read by the same kind of loop: a state is carried through
the tokens of a stream until it is finished. `Loop` holds such a loop with the equation that runs
it, and what is proved here of every loop is used for both.

* `Loop.run_induction`: what each step preserves holds of a whole run;
* `Loop.run_map`: a change of the state that every step carries along is carried to the end;
* `Loop.Path.run_of_reads`: a loop that can go through tokens to a state does so where they stand;
* `Loop.Path.run`: if that state is finished, it reads them where they have been written, up to the
  byte behind the last of them.
-/

namespace ChannelPreset

/-- A loop that reads a token stream. -/
structure Loop (σ : Type) where
  /-- Whether the loop stops in a state. -/
  finished : σ → Bool
  /-- The next state, and the cursor behind the token that leads to it. -/
  step : σ → Cursor → Except DecodeError (σ × Cursor)
  /-- The loop carried on to its end. -/
  run : σ → Cursor → Except DecodeError (σ × Cursor)
  run_eq (p : σ) (c : Cursor) :
    run p c = if finished p then .ok (p, c) else (step p c).bind fun q => run q.1 q.2
  /-- Every token takes bytes. -/
  remaining_lt_of_step {p q : σ} {c c' : Cursor} :
    step p c = .ok (q, c') → c'.remaining < c.remaining

namespace Loop

variable {σ : Type} (l : Loop σ) {p q r : σ} {c c' c'' : Cursor}

theorem run_of_finished (h : l.finished p = true) : l.run p c = .ok (p, c) := by
  rw [l.run_eq, if_pos h]

theorem run_of_step_ok (hp : l.finished p = false) (h : l.step p c = .ok (q, c')) :
    l.run p c = l.run q c' := by
  rw [l.run_eq, if_neg (by simp [hp]), h]
  rfl

theorem run_of_step_error (hp : l.finished p = false) {e : DecodeError}
    (h : l.step p c = .error e) : l.run p c = .error e := by
  rw [l.run_eq, if_neg (by simp [hp]), h]
  rfl

/-- What each step from an unfinished state preserves holds at the end of a run, where the loop is
finished. -/
theorem run_induction_of_unfinished {motive : σ → Cursor → Prop}
    (hstep : ∀ {p q : σ} {c c' : Cursor}, l.finished p = false → l.step p c = .ok (q, c') →
      motive p c → motive q c')
    (hrun : l.run p c = .ok (q, c')) (h : motive p c) : motive q c' ∧ l.finished q = true := by
  -- the bytes that are left become fewer with each step
  induction hn : c.remaining using Nat.strongRecOn generalizing p c with
  | _ n ih =>
    by_cases hp : l.finished p = true
    · rw [l.run_of_finished hp] at hrun
      cases hrun
      exact ⟨h, hp⟩
    · rw [Bool.not_eq_true] at hp
      cases hs : l.step p c with
      | error e =>
        rw [l.run_of_step_error hp hs] at hrun
        cases hrun
      | ok next =>
        obtain ⟨p', c₁⟩ := next
        rw [l.run_of_step_ok hp hs] at hrun
        have hlt := l.remaining_lt_of_step hs
        exact ih _ (hn ▸ hlt) hrun (hstep hp hs h) rfl

/-- What each step preserves holds at the end of a run. -/
theorem run_induction {motive : σ → Cursor → Prop}
    (hstep : ∀ {p q : σ} {c c' : Cursor}, l.step p c = .ok (q, c') → motive p c → motive q c')
    (hrun : l.run p c = .ok (q, c')) (h : motive p c) : motive q c' ∧ l.finished q = true :=
  l.run_induction_of_unfinished (fun _ => hstep) hrun h

/-- A change of the state that every step carries along is carried along by a whole run. -/
theorem run_map {f : σ → σ} (hfinished : ∀ p, l.finished (f p) = l.finished p)
    (hstep : ∀ p c, l.step (f p) c = (l.step p c).map fun y => (f y.1, y.2)) (p : σ) (c : Cursor) :
    l.run (f p) c = (l.run p c).map fun y => (f y.1, y.2) := by
  -- as in `run_induction_of_unfinished`, the bytes that are left become fewer with each step
  induction hn : c.remaining using Nat.strongRecOn generalizing p c with
  | _ n ih =>
    by_cases hp : l.finished p = true
    · rw [l.run_of_finished hp, l.run_of_finished ((hfinished p).trans hp)]
      rfl
    · rw [Bool.not_eq_true] at hp
      have hp' : l.finished (f p) = false := (hfinished p).trans hp
      have hnext := hstep p c
      cases hs : l.step p c with
      | error e =>
        rw [hs] at hnext
        rw [l.run_of_step_error hp hs, l.run_of_step_error hp' hnext]
        rfl
      | ok y =>
        obtain ⟨q, c'⟩ := y
        rw [hs] at hnext
        rw [l.run_of_step_ok hp hs, l.run_of_step_ok hp' hnext]
        exact ih _ (hn ▸ l.remaining_lt_of_step hs) q c' rfl

/-! ## Runs through written tokens -/

/-- A token leads from one state to another, wherever it is read. -/
def Takes (p : σ) (token : Token) (q : σ) : Prop :=
  ∀ c c', Token.read? c = some (token, c') → l.step p c = .ok (q, c')

/-- Tokens lead from one state to another, and the loop is not finished in front of any of them. -/
inductive Path : σ → List Token → σ → Prop
  | nil {p : σ} : Path p [] p
  | cons {p q r : σ} {token : Token} {tokens : List Token} :
      l.finished p = false → l.Takes p token q → Path q tokens r → Path p (token :: tokens) r

variable {l}

/-- A path goes on with a token that its end takes. -/
theorem Path.concat {tokens : List Token} {token : Token} (h : l.Path p tokens q)
    (hq : l.finished q = false) (htakes : l.Takes q token r) : l.Path p (tokens ++ [token]) r := by
  induction h with
  | nil => exact .cons hq htakes .nil
  | cons hp hfirst _ ih => exact .cons hp hfirst (ih hq htakes)

/-- A loop goes through tokens that lead to a state. -/
theorem Path.run_of_reads {tokens : List Token} (h : l.Path p tokens q)
    (hreads : Token.Reads c tokens c') : l.run p c = l.run q c' := by
  -- the path has a step for each token, so both are followed together
  induction h generalizing c with
  | nil => rw [Token.reads_nil.1 hreads]
  | cons hp htakes _ ih =>
    obtain ⟨d, hread, htokens⟩ := hreads
    rw [l.run_of_step_ok hp (htakes _ _ hread), ih htokens]

/-- A loop reads written tokens that lead to a finished state, and stops behind them. -/
theorem Path.run {tokens : List Token} (h : l.Path p (tokens.map Token.kept) q)
    (hq : l.finished q = true) (hbounded : ∀ t ∈ tokens, t.Bounded) (position : Nat)
    (rest : Bytes) :
    l.run p ⟨position, Token.encodeAll tokens ++ rest⟩
      = .ok (q, ⟨position + (Token.encodeAll tokens).length, rest⟩) := by
  rw [h.run_of_reads (Token.reads_encodeAll hbounded position rest), l.run_of_finished hq]

end Loop

/-! ## The loops of the header and the body -/

namespace Header.Progress

/-- The loop that reads a header. -/
def loop : Loop Progress where
  finished p := p.tally.finished
  step p c := (p.next c).map fun q => (p.apply q.1, q.2)
  run := run
  run_eq p c := by
    rw [run]
    split
    · rfl
    · split <;> rename_i hnext <;> rw [hnext] <;> rfl
  remaining_lt_of_step {p q c c'} h := by
    cases hnext : p.next c with
    | error e =>
      rw [hnext] at h
      cases h
    | ok next =>
      obtain ⟨move, c₁⟩ := next
      rw [hnext] at h
      cases h
      exact remaining_lt_of_next hnext

theorem step_of_next {p : Progress} {c c' : Cursor} {move : Move}
    (h : p.next c = .ok (move, c')) : loop.step p c = .ok (p.apply move, c') := by
  show (p.next c).map _ = _
  rw [h]
  rfl

/-- A count is taken while none has been declared. -/
theorem takes_tokenCount {p : Progress} (h : p.tally.declared = none) (count : Int32) :
    loop.Takes p (.tokenCount count) (p.apply (.count count)) := by
  intro c c' hread
  obtain ⟨c₁, htag, hread⟩ := Token.read?_eq_some hread
  refine step_of_next ?_
  rw [next, htag]
  simp only [Token.tag, h, Option.isNone_none, if_true]
  rw [hread]
  rfl

/-- A word is taken as the value of a pending name. -/
theorem takes_int32 {p : Progress} {value : Int32} (move : Move) (h : p.int32 value = .ok move) :
    loop.Takes p (.int32 value) (p.apply move) := by
  intro c c' hread
  obtain ⟨c₁, htag, hread⟩ := Token.read?_eq_some hread
  refine step_of_next ?_
  rw [next, htag]
  simp only [Token.tag]
  rw [hread]
  simp only [Cursor.Read.interpret, h, Except.map]

/-- A text is taken as a name, or as the value of a pending name. -/
theorem takes_string {p : Progress} {text : String} (move : Move) (h : p.string text = .ok move) :
    loop.Takes p (.string text) (p.apply move) := by
  intro c c' hread
  obtain ⟨c₁, htag, hread⟩ := Token.read?_eq_some hread
  refine step_of_next ?_
  rw [next, htag]
  simp only [Token.tag]
  rw [hread]
  simp only [Cursor.Read.interpret, h, Except.map]

end Header.Progress

namespace Body.Progress

/-- The loop that reads a body. -/
def loop : Loop Progress where
  finished p := p.tally.finished
  step p c := (p.next c).bind fun q => (p.apply q.1).map (·, q.2)
  run := run
  run_eq p c := by
    rw [run]
    split
    · rfl
    · split
      · rename_i hnext
        rw [hnext]
        rfl
      · rename_i move c' hnext
        rw [hnext]
        split <;> rename_i happly <;> simp only [Except.bind, happly] <;> rfl
  remaining_lt_of_step {p q c c'} h := by
    cases hnext : p.next c with
    | error e =>
      rw [hnext] at h
      cases h
    | ok next =>
      obtain ⟨move, c₁⟩ := next
      rw [hnext] at h
      cases happly : p.apply move with
      | error e =>
        simp only [Except.bind, happly] at h
        cases h
      | ok p' =>
        simp only [Except.bind, happly] at h
        cases h
        exact remaining_lt_of_next hnext

theorem step_of_next {p q : Progress} {c c' : Cursor} {move : Move}
    (h : p.next c = .ok (move, c')) (h' : p.apply move = .ok q) :
    loop.step p c = .ok (q, c') := by
  show (p.next c).bind _ = _
  rw [h]
  simp only [Except.bind, h']
  rfl

/-- A count is taken while none has been declared. -/
theorem takes_tokenCount {p : Progress} (h : p.tally.declared = none) (count : Int32) :
    loop.Takes p (.tokenCount count) { p with tally := p.tally.declare count } := by
  intro c c' hread
  obtain ⟨c₁, htag, hread⟩ := Token.read?_eq_some hread
  refine @step_of_next _ _ _ _ (.count count) ?_ rfl
  rw [next, htag]
  simp only [Token.tag, h, Option.isNone_none, if_true]
  rw [hread]
  rfl

/-- A text is taken as a name while none is pending. -/
theorem takes_string {p : Progress} (h : p.pending = none) (text : String) :
    loop.Takes p (.string text) { p with pending := some text } := by
  intro c c' hread
  obtain ⟨c₁, htag, hread⟩ := Token.read?_eq_some hread
  refine @step_of_next _ _ _ _ (.name text) ?_ rfl
  rw [next, htag]
  simp only [Token.tag, h, Option.isNone_none, if_true]
  rw [hread]
  rfl

/-- A blob is taken when the section that the pending name stands for accepts it. -/
theorem takes_bytes {p : Progress} {k : Kind} {blob : Bytes} {body : Body}
    (hpending : p.pending = some k.name) (h : p.body.dispatch k blob = .ok body) :
    loop.Takes p (.bytes blob) { body, pending := none, tally := p.tally.add } := by
  intro c c' hread
  obtain ⟨c₁, htag, hread⟩ := Token.read?_eq_some hread
  refine @step_of_next _ _ _ _ (.blob k blob) ?_ ?_
  · rw [next, htag]
    simp only [Token.tag, target, hpending, Kind.ofName?_name]
    rw [hread]
    rfl
  · simp only [apply, h]

end Body.Progress

end ChannelPreset
