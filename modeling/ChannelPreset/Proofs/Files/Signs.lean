import ChannelPreset.Files.Pattern

/-!
# Signs without Brackets

A piece of a path that is read as a piece of a pattern stands for itself at least: its characters
stand for themselves, and a question mark and an asterisk stand for the characters that they are
(`spells_of_read`). Only a bracket can take a piece away from itself, since a class does not stand
for its own text.
-/

namespace ChannelPreset.Pattern

variable {signs : List Sign} {cs : List Char} {before : Option Char}

/-- Signs and the characters that they are written with, when none of them is a class or stands for
directories. -/
inductive Spells : List Sign → List Char → Prop where
  | nil : Spells [] []
  | char {signs : List Sign} {cs : List Char} (c : Char) (h : Spells signs cs) :
    Spells (.char c :: signs) (c :: cs)
  | anyChar {signs : List Sign} {cs : List Char} (h : Spells signs cs) :
    Spells (.anyChar :: signs) ('?' :: cs)
  | anyText {signs : List Sign} {cs : List Char} (h : Spells signs cs) :
    Spells (.anyText :: signs) ('*' :: cs)

namespace Spells

/-- Signs stand for their own text. -/
theorem covers_eq (h : Spells signs cs) : covers signs cs = true := by
  induction h with
  | nil => rw [covers, List.isEmpty_nil]
  | char c _ ih => simp [covers, Sign.isAnyText, Sign.accepts, ih]
  | anyChar _ ih => simp [covers, Sign.isAnyText, Sign.accepts, ih]
  | @anyText signs cs _ ih =>
    -- the asterisk stands for its own character, and for nothing behind it
    have hnothing : covers (.anyText :: signs) cs = true := by
      cases cs <;> simp [covers, Sign.isAnyText, ih]
    simp [covers, Sign.isAnyText, hnothing]

theorem eq_of_plain? {chars : List Char} (h : Spells signs cs)
    (hplain : plain? signs = some chars) : chars = cs := by
  induction h generalizing chars with
  | nil =>
    cases hplain
    rfl
  | char c _ ih =>
    obtain ⟨rest, hrest, rfl⟩ := Option.map_eq_some_iff.1 hplain
    rw [ih hrest]
  | anyChar => cases hplain
  | anyText => cases hplain

theorem isRecursive_eq (h : Spells signs cs) : isRecursive signs = false := by
  rw [isRecursive, List.contains_eq_mem, decide_eq_false_iff_not]
  induction h with
  | nil => exact List.not_mem_nil
  | char _ _ ih => simpa using ih
  | anyChar _ ih => simpa using ih
  | anyText _ ih => simpa using ih

/-- Signs that are no plain text have a question mark or an asterisk among them. -/
theorem mem_of_plain?_eq_none (h : Spells signs cs) (hplain : plain? signs = none) :
    '?' ∈ cs ∨ '*' ∈ cs := by
  induction h with
  | nil => cases hplain
  | char c _ ih =>
    have hrest := ih (Option.map_eq_none_iff.1 hplain)
    exact hrest.imp (List.mem_cons_of_mem c) (List.mem_cons_of_mem c)
  | anyChar => exact .inl List.mem_cons_self
  | anyText => exact .inr List.mem_cons_self

end Spells

/-- Plain signs stand for nothing but the text that they spell. -/
theorem eq_of_covers {chars : List Char} (h : plain? signs = some chars)
    (hcovers : covers signs cs = true) : cs = chars := by
  induction signs generalizing chars cs with
  | nil =>
    cases h
    rw [covers] at hcovers
    exact List.isEmpty_iff.1 hcovers
  | cons sign signs ih =>
    cases sign with
    | char c =>
      obtain ⟨rest, hrest, rfl⟩ := Option.map_eq_some_iff.1 h
      cases cs with
      | nil =>
        rw [covers] at hcovers
        cases hcovers
      | cons d cs =>
        simp only [covers, Sign.isAnyText, Sign.accepts, Bool.false_eq_true, if_false,
          Bool.and_eq_true, beq_iff_eq] at hcovers
        rw [hcovers.1, ih hrest hcovers.2]
    | _ => cases h

theorem exists_of_map_cons {sign : Sign} {x : Except Fault (List Sign)}
    (h : x.map (sign :: ·) = .ok signs) : ∃ rest, x = .ok rest ∧ signs = sign :: rest := by
  cases x with
  | ok rest =>
    cases h
    exact ⟨rest, rfl, rfl⟩
  | error fault => cases h

/-- A piece without brackets is read sign by sign, or is two asterisks. -/
theorem spells_of_read (hbracket : '[' ∉ cs) (hslash : '/' ∉ cs) (h : read before cs = .ok signs) :
    Spells signs cs ∨ isEdge before = true ∧ cs = ['*', '*'] ∧ signs = [.anyDirectories] := by
  -- behind a character no piece begins, so two asterisks are an error there
  have htail : ∀ {c : Char} {cs : List Char} {signs : List Sign}, '[' ∉ c :: cs → '/' ∉ c :: cs →
      ('[' ∉ cs → '/' ∉ cs → Spells signs cs ∨
        isEdge (some c) = true ∧ cs = ['*', '*'] ∧ signs = [.anyDirectories]) →
      Spells signs cs := by
    intro c cs signs hbracket hslash hcases
    rw [List.mem_cons, not_or] at hbracket hslash
    refine (hcases hbracket.2 hslash.2).resolve_right fun ⟨hedge, _⟩ => hslash.1 ?_
    exact (beq_iff_eq.1 hedge).symm
  fun_induction read before cs generalizing signs with
  | case1 =>
    cases h
    exact .inl .nil
  | case2 | case4 | case7 => cases h
  | case3 before cs _ hedge _ =>
    obtain ⟨rest, hrest, rfl⟩ := exists_of_map_cons h
    rw [Bool.and_eq_true] at hedge
    obtain ⟨hbefore, hnext⟩ := hedge
    cases cs with
    | nil =>
      rw [read] at hrest
      cases hrest
      exact .inr ⟨hbefore, rfl, rfl⟩
    | cons c cs =>
      -- an edge in front of a character is a slash
      obtain rfl : c = '/' := by simpa [isEdge] using hnext
      simp at hslash
  | case5 before cs _ _ ih =>
    obtain ⟨rest, hrest, rfl⟩ := exists_of_map_cons h
    exact .inl (.anyText (htail hbracket hslash fun hb hs => ih hb hs hrest))
  | case6 before cs ih =>
    obtain ⟨rest, hrest, rfl⟩ := exists_of_map_cons h
    exact .inl (.anyChar (htail hbracket hslash fun hb hs => ih hb hs hrest))
  | case8 => exact absurd List.mem_cons_self hbracket
  | case9 before c cs _ _ _ _ _ ih =>
    obtain ⟨rest, hrest, rfl⟩ := exists_of_map_cons h
    exact .inl (.char c (htail hbracket hslash fun hb hs => ih hb hs hrest))

end ChannelPreset.Pattern
