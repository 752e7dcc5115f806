import ChannelPreset.Proofs.Preset.Parts
import ChannelPreset.Proofs.Preset.Steps
import ChannelPreset.Proofs.Token.Extension

/-!
# Decoding an Extended Input

What becomes of a verdict when bytes are added to an input. The two loops decide token by token, so
they decide the same on the longer input (`Loop.run_extends`), unless they failed because the input
had ended (`DecodeError.isTruncation`). From this follows that the bytes a preset was read from
determine the verdict, and that none of them can be missing (`Preset.decode_append_and_take`).
-/

namespace ChannelPreset

/-- Whether a preset, or a part of one, is refused because the input ended too early. -/
def DecodeError.isTruncation (e : DecodeError) : Bool :=
  match e.rootCause with
  | .stream error => error.isTruncation
  | .missingTokenCount | .countMismatch .. => true
  | _ => false

theorem Tally.isTruncation_shortfall (t : Tally) : t.shortfall.isTruncation = true := by
  unfold shortfall
  split <;> rfl

/-! ## Steps -/

section

variable {α β : Type} (t : Bytes)

/-- The second outcome is the first one on a longer input, unless the first is a failure at the end.
-/
def Extends (x x' : Except DecodeError (β × Cursor)) : Prop :=
  match x with
  | .ok (b, c) => x' = .ok (b, c.extend t)
  | .error e => e.isTruncation = true ∨ x' = .error e

theorem Extends.of_error {e : DecodeError} : Extends t (.error e : Except _ (β × Cursor)) (.error e) :=
  Or.inr rfl

theorem Extends.of_interpret {r r' : Cursor.Read α} (h : r.Extends t r')
    (meaning : α → Except DecodeError β) :
    Extends t (r.interpret meaning) (r'.interpret meaning) := by
  obtain ⟨e | a, c⟩ := r
  · exact h.imp_right fun h => by rw [h]; rfl
  · rw [show r' = (.ok a, c.extend t) from h]
    cases hm : meaning a with
    | error e => simp only [Cursor.Read.interpret, hm]; exact Or.inr rfl
    | ok b => simp only [Cursor.Read.interpret, hm]; rfl

/-- A further step that does not read keeps the relation. -/
theorem Extends.bind {σ : Type} {x x' : Except DecodeError (β × Cursor)} (h : Extends t x x')
    (f : β → Except DecodeError σ) :
    Extends t (x.bind fun y => (f y.1).map (·, y.2)) (x'.bind fun y => (f y.1).map (·, y.2)) := by
  cases x with
  | error e => exact h.imp_right fun h => by rw [h]; rfl
  | ok y =>
    rw [show x' = .ok (y.1, y.2.extend t) from h]
    show Extends t ((f y.1).map _) ((f y.1).map _)
    cases f y.1 with
    | error e => exact Or.inr rfl
    | ok s => rfl

end

/-- The next token of a header is the same on a longer input. -/
theorem Header.Progress.next_extends (t : Bytes) (p : Progress) (c : Cursor) :
    Extends t (p.next c) (p.next (c.extend t)) := by
  cases htag : c.tag with
  | mk tag c' =>
    by_cases hne : tag = .invalid
    · subst hne
      rw [next, htag]
      exact Or.inl p.tally.isTruncation_shortfall
    · have htag' := Cursor.tag_extend t htag hne
      rw [next, next, htag, htag']
      cases tag with
      | tokenCount =>
        simp only
        split
        · exact .of_interpret t (c'.int32_extends t) _
        · exact .of_error t
      | int32 => exact .of_interpret t (c'.int32_extends t) _
      | string => exact .of_interpret t (c'.string_extends t) _
      | invalid => exact absurd rfl hne
      | bytes | unknown _ => exact .of_error t

/-- The next token of a body is the same on a longer input. -/
theorem Body.Progress.next_extends (t : Bytes) (p : Progress) (c : Cursor) :
    Extends t (p.next c) (p.next (c.extend t)) := by
  cases htag : c.tag with
  | mk tag c' =>
    by_cases hne : tag = .invalid
    · subst hne
      rw [next, htag]
      exact Or.inl p.tally.isTruncation_shortfall
    · have htag' := Cursor.tag_extend t htag hne
      have hposition : (c.extend t).position = c.position := rfl
      rw [next, next, htag, htag', hposition]
      cases tag with
      | tokenCount =>
        simp only
        split
        · exact .of_interpret t (c'.int32_extends t) _
        · exact .of_error t
      | string =>
        simp only
        split
        · exact .of_interpret t (c'.string_extends t) _
        · exact .of_error t
      | bytes =>
        simp only
        split
        · exact .of_interpret t (c'.bytes_extends t) _
        · exact .of_error t
      | invalid => exact absurd rfl hne
      | int32 | unknown _ => exact .of_error t

theorem Header.Progress.step_extends (t : Bytes) (p : Progress) (c : Cursor) :
    Extends t (loop.step p c) (loop.step p (c.extend t)) := by
  have h := (next_extends t p c).bind t fun move => .ok (p.apply move)
  -- applying a move to a header cannot fail
  have hstep : ∀ c, loop.step p c = (p.next c).bind fun y => (Except.ok (p.apply y.1)).map (·, y.2) := by
    intro c
    show (p.next c).map _ = _
    cases p.next c <;> rfl
  rwa [← hstep, ← hstep] at h

theorem Body.Progress.step_extends (t : Bytes) (p : Progress) (c : Cursor) :
    Extends t (loop.step p c) (loop.step p (c.extend t)) :=
  (next_extends t p c).bind t p.apply

/-- A loop whose steps are the same on a longer input has the same runs. -/
theorem Loop.run_extends {σ : Type} (l : Loop σ) (t : Bytes)
    (hstep : ∀ p c, Extends t (l.step p c) (l.step p (c.extend t))) (p : σ) (c : Cursor) :
    Extends t (l.run p c) (l.run p (c.extend t)) := by
  -- as in `run_induction`, the bytes that are left become fewer with each step
  induction hn : c.remaining using Nat.strongRecOn generalizing p c with
  | _ n ih =>
    by_cases hp : l.finished p = true
    · rw [l.run_of_finished hp, l.run_of_finished hp]
      rfl
    · rw [Bool.not_eq_true] at hp
      have h := hstep p c
      cases hs : l.step p c with
      | error e =>
        rw [hs] at h
        rw [l.run_of_step_error hp hs]
        exact h.imp_right fun h' => l.run_of_step_error hp h'
      | ok next =>
        obtain ⟨q, c'⟩ := next
        rw [hs] at h
        rw [l.run_of_step_ok hp hs, l.run_of_step_ok hp h]
        exact ih _ (hn ▸ l.remaining_lt_of_step hs) q c' rfl

/-- A loop whose steps go on in the stream ends farther on in it. -/
theorem Loop.follows_of_run {σ : Type} (l : Loop σ)
    (hstep : ∀ {p q : σ} {c c' : Cursor}, l.step p c = .ok (q, c') → c.Follows c') {p q : σ}
    {c c' : Cursor} (hrun : l.run p c = .ok (q, c')) : c.Follows c' :=
  (l.run_induction (motive := fun _ d => c.Follows d) (fun hs h => h.trans (hstep hs)) hrun
    (.refl c)).1

theorem Header.Progress.follows_of_step {p q : Progress} {c c' : Cursor}
    (h : loop.step p c = .ok (q, c')) : c.Follows c' := by
  obtain ⟨move, hnext, -⟩ := exists_next h
  rcases next_cases hnext with ⟨_, hread, -⟩ | ⟨_, hread, -⟩ | ⟨_, hread, -⟩ <;>
    exact Token.follows_of_read? hread

theorem Body.Progress.follows_of_step {p q : Progress} {c c' : Cursor}
    (h : loop.step p c = .ok (q, c')) : c.Follows c' := by
  obtain ⟨move, hnext, -⟩ := exists_next h
  rcases next_cases hnext with ⟨_, hread, -⟩ | ⟨_, hread, -⟩ | ⟨_, _, hread, -⟩ <;>
    exact Token.follows_of_read? hread

/-! ## Verdicts -/

/-- The second verdict is the first one, unless that is a failure at the end. -/
def Stands {α : Type} (x x' : Except DecodeError α) : Prop :=
  match x with
  | .ok a => x' = .ok a
  | .error e => e.isTruncation = true ∨ x' = .error e

namespace Loop

variable {σ α : Type} (l : Loop σ) {p : σ} {bs : Bytes} (f : σ → α)

/-- What is made of the end of a run stands on a longer input. -/
theorem stands_map_run (t : Bytes) (hstep : ∀ p c, Extends t (l.step p c) (l.step p (c.extend t))) :
    Stands ((l.run p (.start bs)).map fun y => (f y.1, y.2.position))
      ((l.run p (.start (bs ++ t))).map fun y => (f y.1, y.2.position)) := by
  have h : Extends t (l.run p (.start bs)) (l.run p (.start (bs ++ t))) :=
    l.run_extends t hstep p (.start bs)
  cases hrun : l.run p (.start bs) with
  | error e =>
    rw [hrun] at h
    exact h.imp_right fun h => by rw [h]; rfl
  | ok y =>
    rw [hrun] at h
    rw [show l.run p (.start (bs ++ t)) = .ok (y.1, y.2.extend t) from h]
    rfl

/-- A run takes no more bytes than there are. -/
theorem le_length_of_map_run
    (hstep : ∀ {p q : σ} {c c' : Cursor}, l.step p c = .ok (q, c') → c.Follows c') {a : α} {n : Nat}
    (h : (l.run p (.start bs)).map (fun y => (f y.1, y.2.position)) = .ok (a, n)) :
    n ≤ bs.length := by
  cases hrun : l.run p (.start bs) with
  | error e =>
    rw [hrun] at h
    cases h
  | ok y =>
    rw [hrun] at h
    cases h
    exact (l.follows_of_run hstep hrun).le_length

end Loop

namespace Header

/-- The header that a finished loop has read. -/
def Progress.result (p : Progress) : Header :=
  { p.header with tokenCount := Int32.ofNat p.tally.complete }

theorem decode_eq_map (old : Header) (bs : Bytes) :
    old.decode bs = (Progress.loop.run (.start old) (.start bs)).map fun y =>
      (y.1.result, y.2.position) := by
  show (Progress.loop.run _ _).bind _ = _
  cases Progress.loop.run (.start old) (.start bs) <;> rfl

theorem decode_stands (old : Header) (bs t : Bytes) :
    Stands (old.decode bs) (old.decode (bs ++ t)) := by
  rw [decode_eq_map, decode_eq_map]
  exact Progress.loop.stands_map_run Progress.result t (Progress.step_extends t)

theorem le_length_of_decode {old h : Header} {bs : Bytes} {n : Nat}
    (hdecode : old.decode bs = .ok (h, n)) : n ≤ bs.length := by
  rw [decode_eq_map] at hdecode
  exact Progress.loop.le_length_of_map_run Progress.result Progress.follows_of_step hdecode

end Header

namespace Body

/-- The body that a finished loop has read. -/
def Progress.result (p : Progress) : Body :=
  { p.body with tokenCount := Int32.ofNat p.tally.complete }

theorem decode_eq_map (old : Body) (bs : Bytes) :
    old.decode bs = (Progress.loop.run (.start old) (.start bs)).map fun y =>
      (y.1.result, y.2.position) := by
  show (Progress.loop.run _ _).bind _ = _
  cases Progress.loop.run (.start old) (.start bs) <;> rfl

theorem decode_stands (old : Body) (bs t : Bytes) :
    Stands (old.decode bs) (old.decode (bs ++ t)) := by
  rw [decode_eq_map, decode_eq_map]
  exact Progress.loop.stands_map_run Progress.result t (Progress.step_extends t)

theorem le_length_of_decode {old b : Body} {bs : Bytes} {n : Nat}
    (hdecode : old.decode bs = .ok (b, n)) : n ≤ bs.length := by
  rw [decode_eq_map] at hdecode
  exact Progress.loop.le_length_of_map_run Progress.result Progress.follows_of_step hdecode

end Body

namespace Preset

variable {bs : Bytes} {p : Preset} {n : Nat}

/-- The opening is read from the front of a longer input, and the rest of that lies behind it. -/
theorem opening_extends (bs t : Bytes) :
    match opening bs with
    | .ok c => opening (bs ++ t) = .ok (c.extend t) ∧ (Cursor.start bs).Follows c
    | .error e => e.isTruncation = true ∨ opening (bs ++ t) = .error e := by
  have h := (Cursor.start bs).expectString_extends t
  have hfollows := (Cursor.start bs).follows_expectString
  have hstart : (Cursor.start bs).extend t = .start (bs ++ t) := rfl
  rw [hstart] at h
  unfold opening
  -- only what is known of the read matters for the comparison with the magic
  generalize (Cursor.start bs).expectString = r at h hfollows
  obtain ⟨e | text, c⟩ := r
  · exact h.imp_right fun h => by rw [h]
  · rw [show (Cursor.start (bs ++ t)).expectString = (.ok text, c.extend t) from h]
    by_cases hmagic : text = magic
    · simp only [if_pos hmagic]
      exact ⟨trivial, hfollows⟩
    · simp only [if_neg hmagic]
      exact Or.inr trivial

/-- The parts of an input take no more bytes than there are. -/
theorem TakesFront.le_length (h : TakesFront bs p n) : n ≤ bs.length := by
  obtain ⟨c, n₁, n₂, hopening, hheader, hbody, rfl⟩ := h
  have hfront := opening_extends bs []
  rw [hopening] at hfront
  obtain ⟨passed, hrest, hposition⟩ := hfront.2
  have hheader := Header.le_length_of_decode hheader
  have hbody := Body.le_length_of_decode hbody
  rw [List.length_drop] at hbody
  -- the opening, the header and the body lie behind each other
  have hlength : bs.length = passed.length + c.rest.length := by
    rw [show bs = passed ++ c.rest from hrest, List.length_append]
  have hstart : c.position = 0 + passed.length := hposition
  omega

/-- What is read from the front of an input is read from the front of a longer one. -/
theorem TakesFront.append (h : TakesFront bs p n) (t : Bytes) : TakesFront (bs ++ t) p n := by
  obtain ⟨c, n₁, n₂, hopening, hheader, hbody, rfl⟩ := h
  have hfront := opening_extends bs t
  rw [hopening] at hfront
  have hdrop : (c.extend t).rest.drop n₁ = c.rest.drop n₁ ++ t :=
    List.drop_append_of_le_length (Header.le_length_of_decode hheader)
  have hheader' := Header.decode_stands .initial c.rest t
  have hbody' := Body.decode_stands .initial (c.rest.drop n₁) t
  rw [hheader] at hheader'
  rw [hbody, ← hdrop] at hbody'
  exact ⟨c.extend t, n₁, n₂, hfront.1, hheader', hbody', rfl⟩

/-- An input has one front. -/
theorem TakesFront.unique {q : Preset} {m : Nat} (h : TakesFront bs p n) (h' : TakesFront bs q m) :
    n = m := by
  obtain ⟨c, n₁, n₂, hopening, hheader, hbody, rfl⟩ := h
  obtain ⟨c', m₁, m₂, hopening', hheader', hbody', rfl⟩ := h'
  rw [hopening] at hopening'
  cases hopening'
  rw [hheader] at hheader'
  obtain ⟨-, rfl⟩ := Prod.mk.inj (Except.ok.inj hheader')
  rw [hbody] at hbody'
  obtain ⟨-, rfl⟩ := Prod.mk.inj (Except.ok.inj hbody')
  rfl

/-- The verdict on an input stands when bytes are added, unless it is that the input ended. -/
theorem decode_stands (bs t : Bytes) : Stands (decode bs) (decode (bs ++ t)) := by
  have hfront := opening_extends bs t
  cases hopening : opening bs with
  | error e =>
    rw [hopening] at hfront
    rw [decode_of_opening_error hopening]
    exact hfront.imp_right decode_of_opening_error
  | ok c =>
    rw [hopening] at hfront
    have hheader' := Header.decode_stands .initial c.rest t
    cases hheader : Header.initial.decode c.rest with
    | error e =>
      rw [hheader] at hheader'
      rw [decode_of_header_error hopening hheader]
      exact hheader'.imp_right (decode_of_header_error hfront.1)
    | ok y =>
      obtain ⟨header, n₁⟩ := y
      rw [hheader] at hheader'
      have hdrop : (c.extend t).rest.drop n₁ = c.rest.drop n₁ ++ t :=
        List.drop_append_of_le_length (Header.le_length_of_decode hheader)
      -- the header ends within the shorter input, so the body begins at the same place
      have hbody := Body.decode_stands .initial (c.rest.drop n₁) t
      rw [decode_of_body hopening hheader, decode_of_body hfront.1 hheader', hdrop]
      cases hdecode : Body.initial.decode (c.rest.drop n₁) with
      | error e =>
        rw [hdecode] at hbody
        exact hbody.imp_right fun h => by rw [h]
      | ok y =>
        rw [hdecode] at hbody
        rw [show Body.initial.decode (c.rest.drop n₁ ++ t) = .ok y from hbody]
        rfl

/-- The bytes that a verdict was reached on determine it. An accepted input is accepted with more
bytes behind it, as the same preset; an input that is refused for another reason than its end is
refused for the same reason; and an accepted input is refused because of its end as soon as one of
the bytes of its parts is missing. -/
theorem decode_append_and_take (bs t : Bytes) :
    (∀ p, decode bs = .ok p → decode (bs ++ t) = .ok p) ∧
      (∀ e, decode bs = .error e → e.isTruncation = false → decode (bs ++ t) = .error e) ∧
      ∀ p, decode bs = .ok p → ∃ n ≤ bs.length, TakesFront bs p n ∧
        ∀ k < n, ∃ e, decode (bs.take k) = .error e ∧ e.isTruncation = true := by
  have hstands := decode_stands bs t
  refine ⟨fun p hp => ?_, fun e he hkind => ?_, fun p hp => ?_⟩
  · rw [hp] at hstands
    exact hstands
  · rw [he] at hstands
    rcases hstands with htruncation | hsame
    · rw [hkind] at htruncation
      cases htruncation
    · exact hsame
  · obtain ⟨n, hn⟩ := decode_eq_ok_iff.1 hp
    refine ⟨n, hn.le_length, hn, fun k hk => ?_⟩
    have hcut := decode_stands (bs.take k) (bs.drop k)
    rw [List.take_append_drop, hp] at hcut
    cases htake : decode (bs.take k) with
    | ok q =>
      -- the parts of the cut input would be those of the whole one, which take more bytes
      obtain ⟨m, hm⟩ := decode_eq_ok_iff.1 htake
      have hle := hm.le_length
      have hfront := hm.append (bs.drop k)
      rw [List.take_append_drop] at hfront
      have hmn := hfront.unique hn
      rw [List.length_take] at hle
      omega
    | error e =>
      rw [htake] at hcut
      rcases hcut with htruncation | hsame
      · exact ⟨e, rfl, htruncation⟩
      · cases hsame

theorem decode_append_and_take_shortest :
    (∃ p, decode shortest = .ok p ∧ decode (shortest ++ [0xff]) = .ok p ∧
        ∃ n ≤ shortest.length, TakesFront shortest p n ∧
          ∀ k < n, ∃ e, decode (shortest.take k) = .error e ∧ e.isTruncation = true) ∧
      decode [0x06] = .error (.stream (.unexpectedTag 0 .string .int32)) ∧
      decode ([0x06] ++ [0x0a]) = .error (.stream (.unexpectedTag 0 .string .int32)) := by
  have hok : (decode shortest).isOk = true := by decide +kernel
  obtain ⟨happend, -, htake⟩ := decode_append_and_take shortest [0xff]
  obtain ⟨-, herror, -⟩ := decode_append_and_take [0x06] [0x0a]
  cases h : decode shortest with
  | error e =>
    rw [h] at hok
    cases hok
  | ok p => exact ⟨⟨p, rfl, happend p h, htake p h⟩, rfl, herror _ rfl rfl⟩

end Preset

end ChannelPreset
