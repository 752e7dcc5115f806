import ChannelPreset.Proofs.Preset.Loop

/-!
# What One Token Does

A step of a reading loop that does not fail has read one token. `Header.Progress.next_cases` and
`Body.Progress.next_cases` say which tokens a state takes, and what each of them does there.
-/

namespace ChannelPreset

namespace Header.Progress

/-- A step takes the next token and does what it says. -/
theorem exists_next {p q : Progress} {c c' : Cursor} (h : loop.step p c = .ok (q, c')) :
    ∃ move, p.next c = .ok (move, c') ∧ q = p.apply move := by
  replace h : (p.next c).map _ = _ := h
  cases hnext : p.next c with
  | error e =>
    rw [hnext] at h
    cases h
  | ok next =>
    rw [hnext] at h
    cases h
    exact ⟨next.1, rfl, rfl⟩

theorem int32_eq_ok {p : Progress} {value : Int32} {move : Move} (h : p.int32 value = .ok move) :
    p.pending = some versionName ∧ move = .version value := by
  unfold int32 at h
  split at h
  · cases h
  · rename_i hpending
    split at h
    · rename_i hname
      cases h
      exact ⟨hname ▸ hpending, rfl⟩
    · cases h

theorem string_eq_ok {p : Progress} {text : String} {move : Move} (h : p.string text = .ok move) :
    p.pending = none ∧ move = .name text ∨
      p.pending = some fileTypeName ∧ move = .fileType text ∨
      p.pending = some userCommentName ∧ move = .userComment text := by
  unfold string at h
  split at h
  · rename_i hpending
    cases h
    exact Or.inl ⟨hpending, rfl⟩
  · rename_i hpending
    split at h
    · rename_i hname
      cases h
      exact Or.inr (Or.inl ⟨hname ▸ hpending, rfl⟩)
    split at h
    · rename_i hname
      cases h
      exact Or.inr (Or.inr ⟨hname ▸ hpending, rfl⟩)
    · cases h

/-- A header takes a count while none has been declared, a text as a name while none is pending, and
the value of a pending name. -/
theorem next_cases {p : Progress} {c c' : Cursor} {move : Move} (h : p.next c = .ok (move, c')) :
    (∃ count, Token.read? c = some (.tokenCount count, c') ∧ p.tally.declared = none ∧
        move = .count count) ∨
      (∃ value, Token.read? c = some (.int32 value, c') ∧ p.int32 value = .ok move) ∨
      ∃ text, Token.read? c = some (.string text, c') ∧ p.string text = .ok move := by
  unfold next at h
  split at h
  · rename_i c₁ htag
    split at h
    · rename_i hnone
      obtain ⟨count, hread, hmove⟩ := Cursor.Read.interpret_eq_ok.1 h
      cases hmove
      exact Or.inl ⟨count, Token.read?_tokenCount htag hread, Option.isNone_iff_eq_none.1 hnone,
        rfl⟩
    · cases h
  · rename_i c₁ htag
    obtain ⟨value, hread, hmove⟩ := Cursor.Read.interpret_eq_ok.1 h
    exact Or.inr (Or.inl ⟨value, Token.read?_int32 htag hread, hmove⟩)
  · rename_i c₁ htag
    obtain ⟨text, hread, hmove⟩ := Cursor.Read.interpret_eq_ok.1 h
    exact Or.inr (Or.inr ⟨text, Token.read?_string htag hread, hmove⟩)
  · cases h
  · cases h

end Header.Progress

namespace Body.Progress

/-- A step takes the next token and does what it says. -/
theorem exists_next {p q : Progress} {c c' : Cursor} (h : loop.step p c = .ok (q, c')) :
    ∃ move, p.next c = .ok (move, c') ∧ p.apply move = .ok q := by
  replace h : (p.next c).bind (fun next => (p.apply next.1).map (·, next.2)) = _ := h
  cases hnext : p.next c with
  | error e =>
    rw [hnext] at h
    cases h
  | ok next =>
    rw [hnext] at h
    replace h : (p.apply next.1).map (·, next.2) = _ := h
    cases happly : p.apply next.1 with
    | error e =>
      rw [happly] at h
      cases h
    | ok p' =>
      rw [happly] at h
      cases h
      exact ⟨next.1, rfl, happly⟩

theorem target_eq_ok {p : Progress} {offset : Nat} {k : Kind} (h : p.target offset = .ok k) :
    p.pending = some k.name := by
  unfold target at h
  split at h
  · cases h
  · rename_i hpending
    split at h
    · rename_i hkind
      cases h
      rw [hpending, Kind.ofName?_eq_some hkind]
    · cases h

/-- A blob is one of a section that accepts it. -/
theorem exists_dispatch_of_apply {p q : Progress} {k : Kind} {blob : Bytes}
    (h : p.apply (.blob k blob) = .ok q) :
    ∃ body, p.body.dispatch k blob = .ok body ∧
      q = { body, pending := none, tally := p.tally.add } := by
  unfold apply at h
  cases hdispatch : p.body.dispatch k blob with
  | error e =>
    simp only [hdispatch] at h
    cases h
  | ok body =>
    simp only [hdispatch] at h
    cases h
    exact ⟨body, rfl, rfl⟩

/-- A body takes a count while none has been declared, a text as a name while none is pending, and a
blob of the section that the pending name stands for. -/
theorem next_cases {p : Progress} {c c' : Cursor} {move : Move} (h : p.next c = .ok (move, c')) :
    (∃ count, Token.read? c = some (.tokenCount count, c') ∧ p.tally.declared = none ∧
        move = .count count) ∨
      (∃ text, Token.read? c = some (.string text, c') ∧ p.pending = none ∧ move = .name text) ∨
      ∃ k blob, Token.read? c = some (.bytes blob, c') ∧ p.pending = some k.name ∧
        move = .blob k blob := by
  unfold next at h
  split at h
  · rename_i c₁ htag
    split at h
    · rename_i hnone
      obtain ⟨count, hread, hmove⟩ := Cursor.Read.interpret_eq_ok.1 h
      cases hmove
      exact Or.inl ⟨count, Token.read?_tokenCount htag hread, Option.isNone_iff_eq_none.1 hnone,
        rfl⟩
    · cases h
  · rename_i c₁ htag
    split at h
    · rename_i hnone
      obtain ⟨text, hread, hmove⟩ := Cursor.Read.interpret_eq_ok.1 h
      cases hmove
      exact Or.inr (Or.inl ⟨text, Token.read?_string htag hread,
        Option.isNone_iff_eq_none.1 hnone, rfl⟩)
    · cases h
  · rename_i c₁ htag
    split at h
    · rename_i k htarget
      obtain ⟨blob, hread, hmove⟩ := Cursor.Read.interpret_eq_ok.1 h
      cases hmove
      exact Or.inr (Or.inr ⟨k, blob, Token.read?_bytes htag hread, target_eq_ok htarget, rfl⟩)
    · cases h
  · cases h
  · cases h

end Body.Progress

end ChannelPreset
