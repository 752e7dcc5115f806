import ChannelPreset.Proofs.Preset.Loop
import ChannelPreset.Proofs.Token.Sequence
import ChannelPreset.Proofs.Token.Spelling
import Mathlib.Data.List.Induction

/-!
# Loops That Read Pairs

The loop of the header and the loop of the body take the same steps: a count while there is none, a
name while none is pending, and the value of the pair that the pending name begins
(`Spelling.Takes`). They differ in how a pair is spelled and in what is made of it.

What a loop has come to is described by the tokens that it has read (`Spelling.Reaches`). The
description is kept by every step (`PairLoop.Described.step`) and can be taken back by the last
token (`Spelling.Reaches.of_concat`), so a run accepts exactly the tokens with such a description
whose count is met at the end, and no earlier (`PairLoop.run_eq_ok_iff`).
-/

namespace ChannelPreset

/-- How far the reading of pairs has come. -/
structure Reading (β : Type) where
  /-- What has been made of the complete pairs. -/
  made : β
  /-- The name whose value has not been read yet. -/
  pending : Option String
  /-- The count, and the complete pairs. -/
  tally : Tally

/-- Nothing has been read. -/
def Reading.start {β : Type} (made : β) : Reading β := ⟨made, none, .start⟩

theorem Tally.finished_eq_false_iff {t : Tally} :
    t.finished = false ↔ ∀ count ∈ t.declared, count.toInt ≠ t.complete := by
  rw [← Bool.not_eq_true, finished_iff]
  simp

/-- A count that is a number is the word of that number. -/
theorem ofNat_eq_of_toInt_eq {count : Int32} {n : Nat} (h : count.toInt = n) :
    Int32.ofNat n = count := by
  rw [← Int32.ofInt_toInt count, h, Int32.ofInt_eq_ofNat]

/-- What is made of the last pair is made of what has been made of the others. -/
theorem foldlM_concat_eq_some {α β : Type} {store : β → α → Option β} {start made : β}
    {pairs : List α} {a : α} :
    (pairs ++ [a]).foldlM store start = some made ↔
      ∃ front, pairs.foldlM store start = some front ∧ store front a = some made := by
  simp [List.foldlM_append, Option.bind_eq_some_iff]

/-- The last value that some pairs have. -/
def last? {α β : Type} (value? : α → Option β) (pairs : List α) : Option β :=
  (pairs.filterMap value?).getLast?

@[simp]
theorem last?_nil {α β : Type} (value? : α → Option β) : last? value? [] = none := rfl

/-- The value of the last pair comes before those of the others. -/
theorem last?_concat {α β : Type} (value? : α → Option β) (pairs : List α) (a : α) :
    last? value? (pairs ++ [a]) = (value? a).or (last? value? pairs) := by
  cases h : value? a <;> simp [last?, h]

namespace Spelling

variable {α β : Type} (s : Spelling α) (store : β → α → Option β)

/-- What one token does: it declares the count while there is none, it is a name while none is
pending, or it is the value of a pair with the pending name. -/
inductive Takes : Reading β → Token → Reading β → Prop
  | count {made : β} {pending : Option String} {tally : Tally} (count : Int32) :
      tally.declared = none →
      Takes ⟨made, pending, tally⟩ (.tokenCount count) ⟨made, pending, tally.declare count⟩
  | name {made : β} {tally : Tally} (text : String) :
      Takes ⟨made, none, tally⟩ (.string text) ⟨made, some text, tally⟩
  | value {made made' : β} {tally : Tally} (a : α) :
      store made a = some made' →
      Takes ⟨made, some (s.name a), tally⟩ (s.value a) ⟨made', none, tally.add⟩

/-- What the reading has come to after tokens that it may begin with: their count, their pairs and
their last name, and what has been made of the pairs one after the other. -/
structure Reaches (complete : List Token → Nat) (start : β) (tokens : List Token) (p : Reading β)
    (pairs : List α) : Prop where
  begins : s.Begins complete tokens p.tally.declared pairs p.pending
  complete_eq : p.tally.complete = pairs.length
  made_eq : pairs.foldlM store start = some p.made

namespace Reaches

variable {s store} {complete : List Token → Nat} {start : β} {tokens : List Token} {token : Token}
  {p q : Reading β} {pairs : List α}

theorem nil : s.Reaches store complete start [] (.start start) [] where
  begins := ⟨.nil, by simp⟩
  complete_eq := rfl
  made_eq := rfl

/-- Without a token nothing has been reached. -/
theorem of_nil (h : s.Reaches store complete start [] p pairs) : p = .start start := by
  obtain ⟨made, pending, declared, n⟩ := p
  obtain ⟨⟨⟨hcounts, hothers⟩, -⟩, hlength, hmade⟩ := h
  -- neither a count nor a pair nor a name is spelled by no token
  obtain ⟨hpairs, hpending⟩ := List.append_eq_nil_iff.1 hothers.symm
  obtain rfl : pairs = [] := by
    cases pairs with
    | nil => rfl
    | cons a pairs => simp [pair] at hpairs
  obtain rfl : declared = none := by
    cases declared with
    | none => rfl
    | some count => cases hcounts
  obtain rfl : pending = none := by simpa using hpending
  obtain rfl : n = 0 := hlength
  obtain rfl : start = made := by simpa using hmade
  rfl

/-- The reading is finished where the count is met. -/
theorem finished_eq_false_iff (h : s.Reaches store complete start tokens p pairs)
    (hcomplete : complete tokens = pairs.length) :
    p.tally.finished = false ↔ Unmet complete tokens := by
  rw [Tally.finished_eq_false_iff, h.begins.unmet_iff hcomplete, h.complete_eq]

/-- A token that is taken where the count is not met yet keeps the description. -/
theorem concat (h : s.Reaches store complete start tokens p pairs)
    (hunmet : Unmet complete tokens) (htakes : s.Takes store p token q) :
    ∃ pairs', s.Reaches store complete start (tokens ++ [token]) q pairs' := by
  obtain ⟨⟨hspells, hfront⟩, hlength, hmade⟩ := h
  -- the fronts of the longer sequence are those of the shorter one, and that one itself
  have hfront' : ∀ n < (tokens ++ [token]).length, Unmet complete ((tokens ++ [token]).take n) := by
    intro n hn
    rw [List.length_append, List.length_singleton, Nat.lt_succ_iff_lt_or_eq] at hn
    rcases hn with hlt | rfl
    · rw [List.take_append_of_le_length (Nat.le_of_lt hlt)]
      exact hfront n hlt
    · rwa [List.take_left]
  cases htakes with
  | count count hnone =>
    rw [hnone] at hspells
    exact ⟨pairs, ⟨hspells.concat_count count, hfront'⟩, hlength, hmade⟩
  | name text => exact ⟨pairs, ⟨hspells.concat_name text, hfront'⟩, hlength, hmade⟩
  | value a hstore =>
    refine ⟨pairs ++ [a], ⟨hspells.concat_value, hfront'⟩, ?_, ?_⟩
    · simpa [Tally.add] using hlength
    · exact foldlM_concat_eq_some.2 ⟨_, hmade, hstore⟩

/-- What has been reached was reached by taking the last token where the count was not met yet. -/
theorem of_concat (h : s.Reaches store complete start (tokens ++ [token]) q pairs) :
    ∃ p pairs', s.Reaches store complete start tokens p pairs' ∧ Unmet complete tokens ∧
      s.Takes store p token q := by
  obtain ⟨made, pending, declared, n⟩ := q
  obtain ⟨⟨hspells, hfront⟩, hlength, hmade⟩ := h
  have hunmet := hfront tokens.length (by simp)
  rw [List.take_left] at hunmet
  have hfront' : ∀ n < tokens.length, Unmet complete (tokens.take n) := by
    intro n hn
    have hshort := hfront n (by simp; omega)
    rwa [List.take_append_of_le_length (Nat.le_of_lt hn)] at hshort
  rcases hspells.concat_cases with
    ⟨count, rfl, hdeclared, hspells'⟩ | ⟨text, rfl, hpending, hspells'⟩ |
      ⟨front, a, rfl, rfl, hpending, hspells'⟩
  · cases hdeclared
    exact ⟨⟨made, pending, none, n⟩, pairs, ⟨⟨hspells', hfront'⟩, hlength, hmade⟩, hunmet,
      .count count rfl⟩
  · cases hpending
    exact ⟨⟨made, none, declared, n⟩, pairs, ⟨⟨hspells', hfront'⟩, hlength, hmade⟩, hunmet,
      .name text⟩
  · cases hpending
    obtain ⟨made₁, hmade₁, hstore⟩ := foldlM_concat_eq_some.1 hmade
    have hn : n = front.length + 1 := by simpa using hlength
    subst hn
    exact ⟨⟨made₁, some (s.name a), declared, front.length⟩, front,
      ⟨⟨hspells', hfront'⟩, rfl, hmade₁⟩, hunmet, .value a hstore⟩

end Reaches

end Spelling

/-- A loop that reads pairs. -/
structure PairLoop (α β σ : Type) extends Loop σ where
  spelling : Spelling α
  /-- What is made of one more pair, unless the pair is refused. -/
  store : β → α → Option β
  /-- How many pairs are complete among tokens. -/
  complete : List Token → Nat
  complete_eq {tokens : List Token} {declared : Option Int32} {pairs : List α}
    {pending : Option String} :
    spelling.Spells tokens declared pairs pending → complete tokens = pairs.length
  /-- The state of the loop at some point of the reading. -/
  state : Reading β → σ
  finished_state (p : Reading β) : finished (state p) = p.tally.finished
  /-- A step takes the next token. -/
  step_state_eq_ok_iff {p : Reading β} {q : σ} {c c' : Cursor} :
    step (state p) c = .ok (q, c') ↔
      ∃ token r, Token.read? c = some (token, c') ∧ spelling.Takes store p token r ∧ q = state r
  /-- Behind the last byte there is no token. -/
  step_state_of_end {p : Reading β} {c : Cursor} :
    c.rest = [] → step (state p) c = .error p.tally.shortfall

namespace PairLoop

variable {α β σ : Type} (l : PairLoop α β σ) {start : β} {tokens : List Token} {p : Reading β}
  {pairs : List α} {c c' : Cursor} {q : σ}

/-- What the loop has come to after tokens. -/
def Reaches (start : β) (tokens : List Token) (p : Reading β) (pairs : List α) : Prop :=
  l.spelling.Reaches l.store l.complete start tokens p pairs

theorem finished_state_eq_false_iff (h : l.Reaches start tokens p pairs) :
    l.finished (l.state p) = false ↔ Spelling.Unmet l.complete tokens := by
  rw [l.finished_state, h.finished_eq_false_iff (l.complete_eq h.begins.toSpells)]

/-- Tokens that the part may begin with lead the loop to what they describe. -/
theorem path_of_reaches (h : l.Reaches start tokens p pairs) :
    l.Path (l.state (.start start)) tokens (l.state p) := by
  -- the description is taken back token by token, so the induction is from the last one
  induction tokens using List.reverseRecOn generalizing p pairs with
  | nil =>
    rw [h.of_nil]
    exact .nil
  | append_singleton tokens token ih =>
    obtain ⟨p', pairs', hreaches, hunmet, htakes⟩ := h.of_concat
    have hunfinished := (l.finished_state_eq_false_iff hreaches).2 hunmet
    refine (ih hreaches).concat hunfinished fun d d' hread => ?_
    exact l.step_state_eq_ok_iff.2 ⟨token, p, hread, htakes, rfl⟩

/-- The loop stands where some tokens have been read, in the state that they describe. -/
def Described (start : β) (c : Cursor) (r : σ) (d : Cursor) : Prop :=
  ∃ tokens p pairs, Token.Reads c tokens d ∧ l.Reaches start tokens p pairs ∧ r = l.state p

variable {l}

/-- A step from an unfinished state keeps the description. -/
theorem Described.step {r r' : σ} {d d' : Cursor} (h : l.Described start c r d)
    (hunfinished : l.finished r = false) (hstep : l.step r d = .ok (r', d')) :
    l.Described start c r' d' := by
  obtain ⟨tokens, p, pairs, hreads, hreaches, rfl⟩ := h
  obtain ⟨token, p', hread, htakes, rfl⟩ := l.step_state_eq_ok_iff.1 hstep
  have hunmet := (l.finished_state_eq_false_iff hreaches).1 hunfinished
  obtain ⟨pairs', hreaches'⟩ := hreaches.concat hunmet htakes
  exact ⟨_, p', pairs', Token.reads_concat.2 ⟨d, hreads, hread⟩, hreaches', rfl⟩

/-- The end of a run is described by the tokens that have been read. -/
theorem described_of_run (hrun : l.run (l.state (.start start)) c = .ok (q, c')) :
    l.Described start c q c' ∧ l.finished q = true :=
  l.run_induction_of_unfinished (fun hunfinished hstep h => h.step hunfinished hstep) hrun
    ⟨[], .start start, [], rfl, .nil, rfl⟩

variable (l)

/-- A run accepts the tokens that the part may begin with, up to the first place where their count
is met. -/
theorem run_eq_ok_iff :
    l.run (l.state (.start start)) c = .ok (q, c') ↔
      ∃ tokens p pairs, Token.Reads c tokens c' ∧ l.Reaches start tokens p pairs ∧
        ¬ Spelling.Unmet l.complete tokens ∧ q = l.state p := by
  constructor
  · intro hrun
    obtain ⟨⟨tokens, p, pairs, hreads, hreaches, rfl⟩, hfinished⟩ := described_of_run hrun
    refine ⟨tokens, p, pairs, hreads, hreaches, fun hunmet => ?_, rfl⟩
    rw [(l.finished_state_eq_false_iff hreaches).2 hunmet] at hfinished
    cases hfinished
  · rintro ⟨tokens, p, pairs, hreads, hreaches, hmet, rfl⟩
    have hfinished : l.finished (l.state p) = true := by
      rw [← Bool.not_eq_false]
      exact mt (l.finished_state_eq_false_iff hreaches).1 hmet
    rw [(l.path_of_reaches hreaches).run_of_reads hreads, l.run_of_finished hfinished]

/-- A run that comes to the end of the stream before the count is met is refused because of that. -/
theorem run_of_end (hreaches : l.Reaches start tokens p pairs) (hreads : Token.Reads c tokens c')
    (hunmet : Spelling.Unmet l.complete tokens) (hend : c'.rest = []) :
    l.run (l.state (.start start)) c = .error p.tally.shortfall := by
  have hunfinished := (l.finished_state_eq_false_iff hreaches).2 hunmet
  rw [(l.path_of_reaches hreaches).run_of_reads hreads,
    l.run_of_step_error hunfinished (l.step_state_of_end hend)]

/-! ## What is made of the end of a run -/

section

variable {τ : Type} (f : σ → τ) {bs : Bytes} {declared : Option Int32} {pending : Option String}
  {made : β} {n : Nat}

/-- A result is made of tokens that the part may begin with, when their count is the number of their
pairs. -/
theorem map_run_eq_ok_iff {t : τ} :
    (l.run (l.state (.start start)) (.start bs)).map (fun y => (f y.1, y.2.position)) = .ok (t, n) ↔
      ∃ tokens count pairs pending made, Token.Reads (.start bs) tokens ⟨n, bs.drop n⟩ ∧
        l.spelling.Begins l.complete tokens (some count) pairs pending ∧
        pairs.foldlM l.store start = some made ∧ count.toInt = pairs.length ∧
        t = f (l.state ⟨made, pending, ⟨some count, pairs.length⟩⟩) := by
  constructor
  · intro h
    cases hrun : l.run (l.state (.start start)) (.start bs) with
    | error e =>
      rw [hrun] at h
      cases h
    | ok y =>
      obtain ⟨q, c⟩ := y
      rw [hrun] at h
      cases h
      obtain ⟨tokens, ⟨made, pending, declared, _⟩, pairs, hreads, hreaches, hmet, rfl⟩ :=
        l.run_eq_ok_iff.1 hrun
      obtain ⟨hbegins, rfl, hmade⟩ := hreaches
      -- without a count nothing would have ended the run
      rw [hbegins.unmet_iff (l.complete_eq hbegins.toSpells)] at hmet
      cases declared with
      | none => simp at hmet
      | some count =>
        refine ⟨tokens, count, pairs, pending, made, ?_, hbegins, hmade, by simpa using hmet, rfl⟩
        rw [← hreads.eq_drop]
        exact hreads
  · rintro ⟨tokens, count, pairs, pending, made, hreads, hbegins, hmade, hcount, rfl⟩
    have hmet : ¬ Spelling.Unmet l.complete tokens := by
      rw [hbegins.unmet_iff (l.complete_eq hbegins.toSpells)]
      simpa using hcount
    have hreaches : l.Reaches start tokens ⟨made, pending, ⟨some count, pairs.length⟩⟩ pairs :=
      ⟨hbegins, rfl, hmade⟩
    rw [l.run_eq_ok_iff.2 ⟨tokens, _, pairs, hreads, hreaches, hmet, rfl⟩]
    rfl

/-- No result is made of tokens that end with the stream before their count is met. -/
theorem map_run_of_end (hreads : Token.Reads (.start bs) tokens ⟨n, []⟩)
    (hbegins : l.spelling.Begins l.complete tokens declared pairs pending)
    (hmade : pairs.foldlM l.store start = some made) (hunmet : Spelling.Unmet l.complete tokens) :
    (l.run (l.state (.start start)) (.start bs)).map (fun y => (f y.1, y.2.position))
      = .error (Tally.shortfall ⟨declared, pairs.length⟩) := by
  have hreaches : l.Reaches start tokens ⟨made, pending, ⟨declared, pairs.length⟩⟩ pairs :=
    ⟨hbegins, rfl, hmade⟩
  rw [l.run_of_end hreaches hreads hunmet rfl]
  rfl

end

end PairLoop

end ChannelPreset
