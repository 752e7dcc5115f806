import ChannelPreset.Proofs.Files.Signs
import ChannelPreset.Proofs.Files.Standing
import Mathlib.Data.List.Forall2

/-!
# Paths that are Read as Patterns

A path that leads to a file, read as a pattern, finds a path to that file, unless it finds no file
at all (`Pattern.stands_or_fileless`): each of its pieces stands for itself as long as no bracket is
in it. Two asterisks at the end, or in front of a piece that is no name, are what finds no file.
-/

namespace ChannelPreset

namespace Pattern

open Machine ChannelPreset.Path

variable {s : Machine} {f g : Found} {place next final : Location} {text : String}
  {texts rest : List String} {piece : Piece} {pieces : List Piece}

/-! ## Pieces of a path -/

/-- A piece of a path without brackets, and the signs that it is read as. -/
structure Reads (text : String) (piece : Piece) : Prop where
  bracket : '[' ∉ text.toList
  slash : '/' ∉ text.toList
  read_eq : read none text.toList = .ok piece

theorem Reads.cases (h : Reads text piece) :
    Spells piece text.toList ∨ text = "**" ∧ piece = [.anyDirectories] := by
  refine (spells_of_read h.bracket h.slash h.read_eq).imp_right ?_
  rintro ⟨-, htext, hpiece⟩
  exact ⟨String.toList_inj.1 htext, hpiece⟩

/-- A piece that is no name has no signs. -/
theorem Reads.plain?_eq_some (h : Reads text piece) (hname : ¬ IsName text) :
    plain? piece = some text.toList := by
  have hmarks : '?' ∉ text.toList ∧ '*' ∉ text.toList := by
    have hcases : text = "" ∨ text = "." ∨ text = ".." := by
      rw [IsName, isIdle_eq_false_iff] at hname
      tauto
    rcases hcases with rfl | rfl | rfl <;> simp
  have hspells := h.cases.resolve_right fun ⟨htext, _⟩ => hmarks.2 (by rw [htext]; simp)
  cases hplain : plain? piece with
  | some chars => rw [hspells.eq_of_plain? hplain]
  | none =>
    have hmem := hspells.mem_of_plain?_eq_none hplain
    tauto

/-- No path ends with a piece that is no name. -/
theorem Reads.hasName_eq_false (h : Reads text piece) (hname : ¬ IsName text) (g : Found) :
    hasName piece g = false := by
  unfold hasName
  cases hlast : fileName? g.path with
  | none => rfl
  | some name =>
    rw [Bool.eq_false_iff]
    intro hcovers
    obtain rfl : name = text :=
      String.toList_inj.1 (eq_of_covers (h.plain?_eq_some hname) hcovers)
    exact hname (isName_of_fileName? hlast)

/-- Behind two asterisks more of them may stand, and then a piece that is read sign by sign. -/
theorem exists_dropWhile_eq (hreads : List.Forall₂ Reads texts pieces) :
    pieces.dropWhile isRecursive = [] ∨
      ∃ stars text rest last lasts, texts = stars ++ text :: rest ∧
        pieces.dropWhile isRecursive = last :: lasts ∧ (∀ star ∈ stars, star = "**") ∧
        Reads text last ∧ Spells last text.toList ∧ List.Forall₂ Reads rest lasts := by
  induction hreads with
  | nil => exact .inl rfl
  | @cons text piece texts pieces hread hreads ih =>
    rcases hread.cases with hspells | ⟨rfl, rfl⟩
    · refine .inr ⟨[], text, texts, piece, pieces, rfl, ?_, nofun, hread, hspells, hreads⟩
      rw [List.dropWhile_cons, if_neg (by simp [hspells.isRecursive_eq])]
    · rw [List.dropWhile_cons, if_pos (by decide)]
      refine ih.imp_right ?_
      rintro ⟨stars, text, rest, last, lasts, rfl, hdrop, hstars, hrest⟩
      exact ⟨"**" :: stars, text, rest, last, lasts, rfl, hdrop,
        List.forall_mem_cons.2 ⟨rfl, hstars⟩, hrest⟩

/-! ## Pieces that find no file -/

/-- Whether pieces stand for no file, wherever they are found. -/
def Fileless (s : Machine) (pieces : List Piece) : Prop :=
  ∀ f, ∀ g ∈ finds s pieces f, s.tree.kind s.current g.path ≠ some .file

theorem Fileless.cons (h : Fileless s pieces) (hrecursive : isRecursive piece = false) :
    Fileless s (piece :: pieces) := by
  intro f g hg
  cases hplain : plain? piece with
  | some chars =>
    rw [finds_of_plain hplain] at hg
    split at hg
    · exact h _ g hg
    · cases hg
  | none =>
    have hdirectory := isDirectory_of_mem_finds hplain hg
    rw [finds_of_not_isRecursive hplain hdirectory hrecursive, List.mem_append, List.mem_flatMap,
      List.mem_flatMap] at hg
    obtain ⟨name, -, hg⟩ | ⟨child, -, hg⟩ := hg
    · exact h _ g hg
    · split at hg
      · exact h child g hg
      · cases hg

/-- Two asterisks at the end stand for directories. -/
theorem fileless_of_dropWhile_eq_nil (hplain : plain? piece = none)
    (hrecursive : isRecursive piece = true) (hdrop : pieces.dropWhile isRecursive = []) :
    Fileless s (piece :: pieces) := by
  intro f g hg
  have hdirectory := isDirectory_of_mem_finds hplain hg
  rw [finds_of_dropWhile_eq_nil hplain hdirectory hrecursive hdrop, List.mem_filter] at hg
  have hfound := congrArg Found.isDirectory (eq_found_of_mem_deep hg.1)
  have hkind : s.tree.kind s.current g.path = some .directory :=
    beq_iff_eq.1 (hfound.symm.trans hg.2)
  rw [hkind]
  nofun

theorem fileless_of_dropWhile_eq_cons {last : Piece} {lasts : List Piece}
    (hplain : plain? piece = none) (hrecursive : isRecursive piece = true)
    (hdrop : pieces.dropWhile isRecursive = last :: lasts)
    (h : (∀ g, hasName last g = false) ∨ Fileless s lasts) : Fileless s (piece :: pieces) := by
  intro f g hg
  have hdirectory := isDirectory_of_mem_finds hplain hg
  rw [finds_of_dropWhile_eq_cons hplain hdirectory hrecursive hdrop, List.mem_flatMap] at hg
  obtain ⟨b, -, hg⟩ := hg
  split at hg
  · rename_i hname
    rcases h with h | h
    · rw [h b] at hname
      cases hname
    · exact h b g hg
  · cases hg

/-! ## What a path finds -/

/-- What is found from the path with a piece behind it is found from the path by that piece. -/
theorem Stands.mem_finds (h : Stands s f place (text :: texts))
    (hread : Reads text piece) (hspells : Spells piece text.toList)
    (hnext : s.tree.walk place [text] = .ok next)
    (hg : g ∈ finds s pieces (found s (stem f.path ++ text))) :
    g ∈ finds s (piece :: pieces) f := by
  cases hplain : plain? piece with
  | some chars =>
    obtain rfl := hspells.eq_of_plain? hplain
    rw [finds_of_plain hplain, String.ofList_toList, if_pos (h.isNamed_eq hread.slash hnext),
      inside_eq hread.slash]
    exact hg
  | none =>
    -- a piece with signs is a name, which is compared with the names in the directory
    have hname : IsName text := by
      by_contra hname
      rw [hread.plain?_eq_some hname] at hplain
      cases hplain
    have hdirectory := h.isDirectory_eq (FileTree.walk_cons_eq_ok.1 hnext).1
    have hlast : fileName? (found s (stem f.path ++ text)).path = some text :=
      h.fileName?_eq hread.slash hname
    have hcovers : hasName piece (found s (stem f.path ++ text)) = true :=
      (hasName_of_fileName? hlast).trans hspells.covers_eq
    rw [finds_of_not_isRecursive hplain hdirectory hspells.isRecursive_eq, List.mem_append,
      List.mem_flatMap, List.mem_flatMap]
    exact .inr ⟨_, h.mem_below hread.slash hname hnext, by rwa [if_pos hcovers]⟩

/-- Directories that are named by two asterisks, and a name below them, are found by two asterisks
and what the name is read as. -/
theorem Stands.exists_mem_deep_of_stars {stars : List String} {last : Piece}
    (h : Stands s f place ("**" :: (stars ++ text :: rest))) (hstars : ∀ star ∈ stars, star = "**")
    (hlast : Reads text last) (hspells : Spells last text.toList) (hname : IsName text)
    (hwalk : s.tree.walk place ("**" :: (stars ++ text :: rest)) = .ok final) :
    ∃ g ∈ deep s maxDepth f, hasName last g = true ∧
      ∃ middle, Stands s g middle rest ∧ s.tree.walk middle rest = .ok final := by
  have hcut : "**" :: (stars ++ text :: rest) = "**" :: stars ++ [text] ++ rest := by simp
  rw [hcut] at hwalk
  obtain ⟨middle, hmiddle, hrest⟩ := (FileTree.walk_append_eq_ok _ _).1 hwalk
  have hcases : ∀ name ∈ "**" :: stars ++ [text], name = "**" ∨ name = text := by
    intro name hmem
    rcases List.mem_append.1 hmem with hmem | hmem
    · rcases List.mem_cons.1 hmem with rfl | hmem
      · exact .inl rfl
      · exact .inl (hstars name hmem)
    · exact .inr (List.mem_singleton.1 hmem)
  have hslash : ∀ name ∈ "**" :: stars ++ [text], '/' ∉ name.toList := by
    intro name hmem
    rcases hcases name hmem with rfl | rfl
    · simp
    · exact hlast.slash
  have hnames : ∀ name ∈ "**" :: stars ++ [text], IsName name := by
    intro name hmem
    rcases hcases name hmem with rfl | rfl
    · exact ⟨rfl, by decide⟩
    · exact hname
  -- each name takes room in the path
  have hdepth : ("**" :: stars).length < maxDepth := by
    have hroom := h.room
    have hlength := length_le_span ("**" :: (stars ++ text :: rest))
    simp only [List.length_cons, List.length_append, FileTree.maxPathLength] at hroom hlength ⊢
    simp only [maxDepth]
    omega
  obtain ⟨g, hg, hstands, hlastName⟩ := h.exists_mem_deep hslash hnames hmiddle hdepth
  exact ⟨g, hg, (hasName_of_fileName? hlastName).trans hspells.covers_eq, middle, hstands, hrest⟩

/-- Pieces that lead from the place of a path to another one find a path to that place when they are
read as pieces of a pattern, unless they find no file at all. -/
theorem stands_or_fileless (hreads : List.Forall₂ Reads texts pieces) (h : Stands s f place texts)
    (hwalk : s.tree.walk place texts = .ok final) :
    (∃ g ∈ finds s pieces f, Stands s g final []) ∨ Fileless s pieces := by
  -- the induction is on the length, since two asterisks are read together with what follows them
  induction hlength : texts.length using Nat.strongRecOn generalizing texts pieces f place with
  | ind length ih =>
    cases hreads with
    | nil =>
      cases hwalk
      exact .inl ⟨f, by rw [finds_nil]; exact List.mem_singleton_self f, h⟩
    | @cons text piece texts pieces hread hreads =>
      obtain ⟨next, hnext, hrest⟩ := (FileTree.walk_append_eq_ok [text] _).1 hwalk
      rcases hread.cases with hspells | ⟨rfl, rfl⟩
      · have hih := ih _ (by rw [← hlength]; exact Nat.lt_succ_self _) hreads
          (h.step hread.slash hnext) hrest rfl
        refine hih.imp ?_ (·.cons hspells.isRecursive_eq)
        exact fun ⟨g, hg, hstands⟩ => ⟨g, h.mem_finds hread hspells hnext hg, hstands⟩
      · have hplain : plain? [Sign.anyDirectories] = none := rfl
        have hrecursive : isRecursive [Sign.anyDirectories] = true := rfl
        have hdirectory := h.isDirectory_eq (FileTree.walk_cons_eq_ok.1 hwalk).1
        rcases exists_dropWhile_eq hreads with hdrop |
          ⟨stars, text, rest, last, lasts, rfl, hdrop, hstars, hlast, hspells, hreads⟩
        · exact .inr (fileless_of_dropWhile_eq_nil hplain hrecursive hdrop)
        by_cases hname : IsName text
        · obtain ⟨b, hb, hbname, middle, hstands, hrest⟩ :=
            h.exists_mem_deep_of_stars hstars hlast hspells hname hwalk
          have hshorter : rest.length < length := by
            rw [← hlength, List.length_cons, List.length_append, List.length_cons]
            omega
          refine (ih _ hshorter hreads hstands hrest rfl).imp ?_ fun hfileless =>
            fileless_of_dropWhile_eq_cons hplain hrecursive hdrop (.inr hfileless)
          rintro ⟨g, hg, hstands⟩
          refine ⟨g, ?_, hstands⟩
          rw [finds_of_dropWhile_eq_cons hplain hdirectory hrecursive hdrop, List.mem_flatMap]
          exact ⟨b, hb, by rwa [if_pos hbname]⟩
        · exact .inr (fileless_of_dropWhile_eq_cons hplain hrecursive hdrop
            (.inl (hlast.hasName_eq_false hname)))

end Pattern

end ChannelPreset
