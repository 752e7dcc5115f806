import ChannelPreset.Token.Basic

/-!
# Spelled Pairs

The header and the body of a preset have the same grammar: one count among pairs of a name and a
value. A `Spelling` says which name and which value a pair has; `Spelling.Spells` says that tokens
are such pairs, one behind the other, with a count anywhere among them and perhaps a name at the end
that has no value. What can be the last of such tokens is `Spelling.Spells.concat_cases`.

A part of a preset ends where its count is met for the first time, so tokens that it can begin with
(`Spelling.Begins`) do not meet their count earlier.
-/

namespace ChannelPreset

namespace Token

/-- The count that a token declares. -/
def count? : Token → Option Int32
  | .tokenCount count => some count
  | _ => none

/-- The counts among tokens. -/
def counts (tokens : List Token) : List Int32 :=
  tokens.filterMap count?

/-- The tokens that are no counts. -/
def others (tokens : List Token) : List Token :=
  tokens.filter fun token => token.count?.isNone

/-- How many of the tokens are blobs. -/
def blobs (tokens : List Token) : Nat :=
  tokens.countP fun
    | .bytes _ => true
    | _ => false

variable {tokens : List Token} {token : Token}

@[simp]
theorem counts_concat_count (count : Int32) :
    counts (tokens ++ [.tokenCount count]) = counts tokens ++ [count] := by
  simp [counts, count?]

@[simp]
theorem others_concat_count (count : Int32) :
    others (tokens ++ [.tokenCount count]) = others tokens := by
  simp [others, count?]

theorem counts_concat_of_none (h : token.count? = none) :
    counts (tokens ++ [token]) = counts tokens := by
  simp [counts, h]

theorem others_concat_of_none (h : token.count? = none) :
    others (tokens ++ [token]) = others tokens ++ [token] := by
  simp [others, h]

theorem eq_tokenCount_of_count?_eq_some {count : Int32} (h : token.count? = some count) :
    token = .tokenCount count := by
  cases token <;> simp_all [count?]

theorem blobs_append (tokens tokens' : List Token) :
    blobs (tokens ++ tokens') = blobs tokens + blobs tokens' :=
  List.countP_append

/-- Every blob is among the tokens that are no counts. -/
theorem blobs_others (tokens : List Token) : blobs (others tokens) = blobs tokens := by
  rw [blobs, others, List.countP_filter, blobs]
  refine List.countP_congr fun token _ => ?_
  cases token <;> simp [count?]

end Token

/-- How pairs of some kind are written: a name, and a token behind it that is no count. -/
structure Spelling (α : Type) where
  name : α → String
  value : α → Token
  value_count? (a : α) : (value a).count? = none

namespace Spelling

variable {α : Type} (s : Spelling α)

/-- The tokens of a pair. -/
def pair (a : α) : List Token := [.string (s.name a), s.value a]

/-- Tokens are pairs, one behind the other, and perhaps a name that waits for its value; anywhere
among them there may be a count, but no second one. -/
structure Spells (tokens : List Token) (declared : Option Int32) (pairs : List α)
    (pending : Option String) : Prop where
  counts_eq : Token.counts tokens = declared.toList
  others_eq : Token.others tokens = pairs.flatMap s.pair ++ (pending.map Token.string).toList

instance (tokens : List Token) (declared : Option Int32) (pairs : List α)
    (pending : Option String) : Decidable (s.Spells tokens declared pairs pending) :=
  decidable_of_iff (Token.counts tokens = declared.toList ∧
      Token.others tokens = pairs.flatMap s.pair ++ (pending.map Token.string).toList)
    ⟨fun h => ⟨h.1, h.2⟩, fun h => ⟨h.1, h.2⟩⟩

/-- Tokens are pairs in one way, when a name and a value belong to one pair. -/
theorem eq_of_flatMap_pair_append_eq {s : Spelling α}
    (hinj : ∀ a b, s.name a = s.name b → s.value a = s.value b → a = b) {pairs pairs' : List α}
    {pending pending' : Option String}
    (h : pairs.flatMap s.pair ++ (pending.map Token.string).toList
      = pairs'.flatMap s.pair ++ (pending'.map Token.string).toList) : pairs = pairs' := by
  induction pairs generalizing pairs' with
  | nil =>
    cases pairs' with
    | nil => rfl
    | cons a' pairs' =>
      -- a name without a value is one token, and a pair has two
      cases pending <;> simp [pair] at h
  | cons a pairs ih =>
    cases pairs' with
    | nil => cases pending' <;> simp [pair] at h
    | cons a' pairs' =>
      simp only [List.flatMap_cons, pair, List.cons_append, List.nil_append, List.cons.injEq,
        Token.string.injEq] at h
      obtain ⟨hname, hvalue, hback⟩ := h
      rw [hinj a a' hname hvalue, ih hback]

namespace Spells

variable {s} {tokens : List Token} {declared : Option Int32} {pairs : List α}
  {pending : Option String}

theorem nil : s.Spells [] none [] none := ⟨rfl, rfl⟩

/-- A count may follow anywhere, unless there is one already. -/
theorem concat_count (h : s.Spells tokens none pairs pending) (count : Int32) :
    s.Spells (tokens ++ [.tokenCount count]) (some count) pairs pending where
  counts_eq := by simp [h.counts_eq]
  others_eq := by simp [h.others_eq]

/-- A name may follow complete pairs. -/
theorem concat_name (h : s.Spells tokens declared pairs none) (text : String) :
    s.Spells (tokens ++ [.string text]) declared pairs (some text) where
  counts_eq := by rw [Token.counts_concat_of_none rfl, h.counts_eq]
  others_eq := by
    have hname : (Token.string text).count? = none := rfl
    simp [Token.others_concat_of_none hname, h.others_eq]

/-- The value of a pair follows its name. -/
theorem concat_value {a : α} (h : s.Spells tokens declared pairs (some (s.name a))) :
    s.Spells (tokens ++ [s.value a]) declared (pairs ++ [a]) none where
  counts_eq := by rw [Token.counts_concat_of_none (s.value_count? a), h.counts_eq]
  others_eq := by simp [Token.others_concat_of_none (s.value_count? a), h.others_eq, pair]

/-- The last of the tokens is a count, a name, or the value of the last pair. -/
theorem concat_cases {token : Token} (h : s.Spells (tokens ++ [token]) declared pairs pending) :
    (∃ count, token = .tokenCount count ∧ declared = some count ∧
        s.Spells tokens none pairs pending) ∨
      (∃ text, token = .string text ∧ pending = some text ∧ s.Spells tokens declared pairs none) ∨
      ∃ front a, token = s.value a ∧ pairs = front ++ [a] ∧ pending = none ∧
        s.Spells tokens declared front (some (s.name a)) := by
  obtain ⟨hcounts, hothers⟩ := h
  cases hcount : token.count? with
  | some count =>
    obtain rfl := Token.eq_tokenCount_of_count?_eq_some hcount
    rw [Token.others_concat_count] at hothers
    rw [Token.counts_concat_count] at hcounts
    -- it is the only count
    cases declared with
    | none => simp at hcounts
    | some declared =>
      have hsole : Token.counts tokens ++ [count] = [] ++ [declared] := hcounts
      obtain ⟨hfront, rfl⟩ := List.append_singleton_inj.1 hsole
      exact Or.inl ⟨count, rfl, rfl, hfront, hothers⟩
  | none =>
    rw [Token.counts_concat_of_none hcount] at hcounts
    rw [Token.others_concat_of_none hcount] at hothers
    cases pending with
    | some text =>
      obtain ⟨hfront, rfl⟩ := List.append_singleton_inj.1 hothers
      exact Or.inr (Or.inl ⟨text, rfl, rfl, hcounts, by simpa using hfront⟩)
    | none =>
      -- nothing waits for a value, so the last pair is complete
      rcases List.eq_nil_or_concat pairs with rfl | ⟨front, a, rfl⟩
      · simp at hothers
      · have hsplit : Token.others tokens ++ [token]
            = (front.flatMap s.pair ++ [.string (s.name a)]) ++ [s.value a] := by
          simpa [pair] using hothers
        obtain ⟨hfront, rfl⟩ := List.append_singleton_inj.1 hsplit
        exact Or.inr (Or.inr ⟨front, a, rfl, by simp, rfl, hcounts, hfront⟩)

/-- Two tokens of those that are no counts are a complete pair. -/
theorem length_others_div_two (h : s.Spells tokens declared pairs pending) :
    (Token.others tokens).length / 2 = pairs.length := by
  have hpairs : (pairs.flatMap s.pair).length = pairs.length * 2 := by
    simp [List.length_flatMap, pair, List.map_const']
  rw [h.others_eq, List.length_append, hpairs]
  cases pending <;> simp
  omega

end Spells

/-! ## The first place where a count is met -/

/-- The number that a count among the tokens declares is not the number of complete pairs. -/
def Unmet (complete : List Token → Nat) (tokens : List Token) : Prop :=
  ∀ count ∈ Token.counts tokens, count.toInt ≠ complete tokens

instance (complete : List Token → Nat) (tokens : List Token) : Decidable (Unmet complete tokens) :=
  -- the counts are gone through, and not all words
  decidable_of_iff ((Token.counts tokens).all fun count => count.toInt != complete tokens)
    (by simp [Unmet])

/-- Tokens that a part may begin with: they spell pairs, and no shorter front of them meets its
count. How many pairs are complete is told by the tokens alone, so that fronts need no pairs of
their own. -/
structure Begins (complete : List Token → Nat) (tokens : List Token) (declared : Option Int32)
    (pairs : List α) (pending : Option String) : Prop
    extends s.Spells tokens declared pairs pending where
  /-- No shorter front meets its count. -/
  unmet_take : ∀ n < tokens.length, Unmet complete (tokens.take n)

instance (complete : List Token → Nat) (tokens : List Token) (declared : Option Int32)
    (pairs : List α) (pending : Option String) :
    Decidable (s.Begins complete tokens declared pairs pending) :=
  decidable_of_iff (s.Spells tokens declared pairs pending ∧
      ∀ n < tokens.length, Unmet complete (tokens.take n))
    ⟨fun h => ⟨h.1, h.2⟩, fun h => ⟨h.1, h.2⟩⟩

variable {s} {complete : List Token → Nat} {tokens : List Token} {pairs : List α}
  {pending : Option String}

/-- A count is met when it is the number of complete pairs. -/
theorem Spells.unmet_iff {declared : Option Int32} (h : s.Spells tokens declared pairs pending)
    (hcomplete : complete tokens = pairs.length) :
    Unmet complete tokens ↔ ∀ count ∈ declared, count.toInt ≠ pairs.length := by
  simp [Unmet, h.counts_eq, hcomplete]

/-- Where a count is met while a name waits for its value, the count is the last token. -/
theorem Begins.getLast?_eq_of_pending {count : Int32} {text : String}
    (h : s.Begins complete tokens (some count) pairs (some text))
    (hcomplete : ∀ {tokens : List Token} {declared : Option Int32} {pairs : List α}
      {pending : Option String}, s.Spells tokens declared pairs pending →
        complete tokens = pairs.length)
    (hmet : count.toInt = pairs.length) : tokens.getLast? = some (.tokenCount count) := by
  rcases List.eq_nil_or_concat tokens with rfl | ⟨front, token, rfl⟩
  · cases h.counts_eq
  · rw [List.concat_eq_append] at h ⊢
    rcases h.concat_cases with
      ⟨count', rfl, hdeclared, -⟩ | ⟨text', -, -, hspells⟩ | ⟨-, -, -, -, hpending, -⟩
    · cases hdeclared
      simp
    · -- without the name the count would have been met already
      have hunmet := h.unmet_take front.length (by simp)
      rw [List.take_left] at hunmet
      exact absurd hmet ((hspells.unmet_iff (hcomplete hspells)).1 hunmet count rfl)
    · cases hpending

end Spelling

end ChannelPreset
