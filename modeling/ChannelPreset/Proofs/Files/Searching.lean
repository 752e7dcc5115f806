import ChannelPreset.Proofs.Files.Literal

/-!
# Searching for a Path as a Pattern

Of the paths that a pattern stands for, only those of regular files count (`Pattern.files`). A text
without brackets that leads to a file leads to one of the files that it stands for as a pattern, if
there are any (`Pattern.files_eq_nil_or_exists`), and so to the only one.
-/

namespace ChannelPreset

namespace FileTree

theorem exists_of_kind_eq_file {t : FileTree} {current : Location} {path : String}
    (h : t.kind current path = some .file) :
    ∃ place content, t.resolve current path = .ok place ∧
      t.lookup place = some (.file content) := by
  unfold kind at h
  split at h
  · cases h
  · split at h
    · exact ⟨_, _, ‹_›, ‹_›⟩
    · cases h
    · cases h

end FileTree

namespace Pattern

open Machine ChannelPreset.Path

variable {s : Machine} {place : Location} {text : String} {texts : List String}
  {pieces : List Piece}

/-! ## Regular files -/

/-- The regular files among the paths that a pattern stands for. -/
def files (s : Machine) (pattern : Pattern) : List String :=
  (s.seen (pattern.paths host)).filter fun path => s.tree.kind s.current path == some .file

/-- The path that a pattern is searched from. -/
def start (s : Machine) (absolute : Bool) : Found :=
  found s (if absolute then "/" else ".")

theorem files_eq (pattern : Pattern) :
    files s pattern = (((finds s pattern.pieces (start s pattern.absolute)).filter
      fun f => f.isDirectory || !pattern.directoriesOnly).map (·.path)).filter
        fun path => s.tree.kind s.current path == some .file := by
  rw [files, paths, (onlyLooks_find _).seen_bind, (onlyLooks_expand _ _).seen_bind]
  rfl

theorem mem_files_iff {pattern : Pattern} {path : String} :
    path ∈ files s pattern ↔ s.tree.kind s.current path = some .file ∧
      ∃ g ∈ finds s pattern.pieces (start s pattern.absolute),
        (g.isDirectory || !pattern.directoriesOnly) = true ∧ g.path = path := by
  rw [files_eq, List.mem_filter, List.mem_map, and_comm, beq_iff_eq]
  simp only [List.mem_filter, and_assoc]

/-! ## Reading a path as a pattern -/

theorem exists_of_bind_eq_ok {ε α β : Type} {x : Except ε α} {next : α → Except ε β} {b : β}
    (h : (x >>= next) = .ok b) : ∃ a, x = .ok a ∧ next a = .ok b := by
  cases x with
  | ok a => exact ⟨a, rfl, h⟩
  | error e => cases h

theorem forall₂_of_mapM {texts : List (List Char)} (h : texts.mapM (read none) = .ok pieces) :
    List.Forall₂ (fun cs piece => read none cs = .ok piece) texts pieces := by
  induction texts generalizing pieces with
  | nil =>
    rw [List.mapM_nil] at h
    cases h
    exact .nil
  | cons cs texts ih =>
    rw [List.mapM_cons] at h
    obtain ⟨piece, hpiece, h⟩ := exists_of_bind_eq_ok h
    obtain ⟨rest, hrest, h⟩ := exists_of_bind_eq_ok h
    cases h
    exact .cons hpiece (ih hrest)

theorem pieceTexts_toList (h : (Path.pieces text).getLast? ≠ some "") :
    pieceTexts text.toList = (Path.pieces text).map String.toList := by
  have hlast : (cut (· == '/') text.toList).getLast? ≠ some [] := by
    intro hnil
    rw [Path.pieces, List.getLast?_map, hnil] at h
    exact h rfl
  have htexts : String.toList ∘ String.ofList = id := funext fun cs => String.toList_ofList
  rw [pieceTexts, if_neg hlast, Path.pieces, List.map_map, htexts, List.map_id]

/-- The pieces of a path are read one by one when it is read as a pattern. -/
theorem forall₂_reads (hbracket : '[' ∉ text.toList) (hlast : (Path.pieces text).getLast? ≠ some "")
    (h : (pieceTexts text.toList).mapM (read none) = .ok pieces) :
    List.Forall₂ Reads (Path.pieces text) pieces := by
  rw [pieceTexts_toList hlast] at h
  have hread := List.forall₂_map_left_iff.1 (forall₂_of_mapM h)
  rw [List.forall₂_iff_get] at hread ⊢
  refine hread.imp_right fun hread i hi hpiece => ?_
  have hmem := List.get_mem (Path.pieces text) ⟨i, hi⟩
  exact ⟨fun hc => hbracket (mem_of_mem_pieces hmem hc).1, notMem_of_mem_pieces hmem,
    hread i hi hpiece⟩

/-! ## Where the search begins -/

theorem path_start_false : (start s false).path = "." :=
  rfl

theorem path_start_true : (start s true).path = "/" :=
  rfl

theorem stands_current (hcurrent : s.tree.lookup s.current = some .directory)
    (hroom : span texts ≤ FileTree.maxPathLength + 1)
    (hunbroken : (texts.dropWhile (· == ".")).head? ≠ some "") :
    Stands s (start s false) s.current texts where
  eq_found := rfl
  resolve_eq := by
    rw [path_start_false, FileTree.resolve, if_neg (by decide), if_neg (by decide)]
    exact FileTree.walk_cons_eq_ok.2 ⟨hcurrent, .inl ⟨rfl, rfl⟩⟩
  room := by
    have hstem : size (stem ".") = 0 := by decide
    rw [path_start_false]
    omega
  unbroken _ := hunbroken

theorem stands_root (hroom : 1 + span texts ≤ FileTree.maxPathLength + 1) :
    Stands s (start s true) [] texts where
  eq_found := rfl
  resolve_eq := by
    rw [path_start_true, FileTree.resolve, if_neg (by decide), if_neg (by decide)]
    rfl
  room := by
    have hstem : size (stem "/") = 1 := by decide
    rw [path_start_true]
    omega
  unbroken h := by
    rw [path_start_true] at h
    exact absurd h (by decide)

/-- An empty piece behind dots stands for nothing. -/
theorem finds_of_broken (hreads : List.Forall₂ Reads texts pieces)
    (h : (texts.dropWhile (· == ".")).head? = some "") : finds s pieces (start s false) = [] := by
  induction hreads with
  | nil => cases h
  | @cons text piece texts pieces hread _ ih =>
    have hstem : stem (start s false).path = "" := by
      rw [path_start_false]
      decide
    have hplain : isIdle text = true → plain? piece = some text.toList := fun hidle =>
      hread.plain?_eq_some fun hname => Bool.noConfusion (hname.1.symm.trans hidle)
    rw [List.dropWhile_cons] at h
    split at h
    · rename_i hdot
      obtain rfl := beq_iff_eq.1 hdot
      have hnil : finds s pieces (found s ".") = [] := ih h
      rw [finds_of_plain (hplain rfl), String.ofList_toList, inside_eq hread.slash, hstem,
        String.empty_append, hnil]
      exact ite_self _
    · obtain rfl := Option.some_inj.1 h
      rw [finds_of_plain (hplain rfl), String.ofList_toList, isNamed, inside_eq hread.slash, hstem]
      rfl

theorem parse_eq_ok {pattern : Pattern} (h : parse text = .ok pattern) :
    ∃ pieces, (pieceTexts (if isAbsolute text then text.toList.drop 1
        else text.toList)).mapM (read none) = .ok pieces ∧
      pattern = ⟨isAbsolute text, pieces, isSlashed text⟩ := by
  unfold parse at h
  obtain ⟨signs, -, h⟩ := exists_of_bind_eq_ok h
  obtain ⟨pieces, hpieces, h⟩ := exists_of_bind_eq_ok h
  cases h
  exact ⟨pieces, hpieces, rfl⟩

/-- A path without brackets that leads to a file finds a path to that file when it is read as a
pattern, unless it finds no file at all. -/
theorem stands_or_fileless_of_parse {pattern : Pattern} (hbracket : '[' ∉ text.toList)
    (hlast : (Path.pieces text).getLast? ≠ some "")
    (hplace : s.tree.resolve s.current text = .ok place) (hparse : parse text = .ok pattern) :
    (∃ g ∈ finds s pattern.pieces (start s pattern.absolute), Stands s g place []) ∨
      ∀ g ∈ finds s pattern.pieces (start s pattern.absolute),
        s.tree.kind s.current g.path ≠ some .file := by
  obtain ⟨pieces, hpieces, rfl⟩ := parse_eq_ok hparse
  obtain ⟨-, hlength, hwalk⟩ := FileTree.resolve_eq_ok hplace
  have hspan := size_intercalate (pieces_ne_nil text)
  rw [intercalate_pieces, size] at hspan
  rw [FileTree.origin] at hwalk
  cases habsolute : isAbsolute text with
  | false =>
    rw [habsolute, if_neg Bool.false_ne_true] at hpieces hwalk
    have hreads := forall₂_reads hbracket hlast hpieces
    by_cases hbroken : ((Path.pieces text).dropWhile (· == ".")).head? = some ""
    · -- then nothing is found
      refine .inr fun g hg => ?_
      have hnil : g ∈ ([] : List Found) := finds_of_broken hreads hbroken ▸ hg
      cases hnil
    · have hcurrent := FileTree.lookup_of_walk (pieces_ne_nil text) hwalk
      have hstands := stands_current hcurrent (by omega) hbroken
      exact (stands_or_fileless hreads hstands hwalk).imp_right fun hfileless => hfileless _
  | true =>
    -- a slash in front adds an empty piece, which is left out of the pattern
    obtain ⟨back, rfl⟩ : ∃ back, text = "/" ++ back :=
      ⟨_, eq_slash_append_of_isAbsolute habsolute⟩
    have hback : ("/" ++ back).toList = '/' :: back.toList := by simp
    rw [habsolute, if_pos rfl, hback, List.drop_one, List.tail_cons] at hpieces
    rw [habsolute, if_pos rfl, pieces_slash_append] at hwalk
    rw [hback, List.mem_cons, not_or] at hbracket
    obtain ⟨first, rest, hrest⟩ := List.exists_cons_of_ne_nil (pieces_ne_nil back)
    rw [pieces_slash_append, hrest, List.getLast?_cons_cons, ← hrest] at hlast
    rw [pieces_slash_append, span] at hspan
    have hstands : Stands s (start s true) [] (Path.pieces back) := stands_root (by omega)
    have hreads := forall₂_reads hbracket.2 hlast hpieces
    exact (stands_or_fileless hreads hstands hwalk).imp_right fun hfileless => hfileless _

/-- A path without brackets that leads to a file leads to one of the files that it stands for as a
pattern, if there are any. -/
theorem files_eq_nil_or_exists {pattern : Pattern} (hclosed : s.tree.Closed)
    (hbracket : '[' ∉ text.toList) (hfile : s.tree.kind s.current text = some .file)
    (hparse : parse text = .ok pattern) :
    files s pattern = [] ∨
      ∃ path ∈ files s pattern, s.tree.resolve s.current path = s.tree.resolve s.current text := by
  obtain ⟨place, content, hplace, hnode⟩ := FileTree.exists_of_kind_eq_file hfile
  obtain ⟨directory, name, -, hpoints⟩ := FileTree.exists_points_of_resolve hclosed hplace hnode
  -- the last piece of the path is the name of the file, so it has no slash behind it
  have hlast : (Path.pieces text).getLast? ≠ some "" := by
    obtain ⟨front, hpieces, -⟩ := hpoints.walk_eq
    rw [hpieces, List.getLast?_append, List.getLast?_singleton]
    exact fun h => (isIdle_eq_false_iff.1 hpoints.isIdle_eq).1 (Option.some_inj.1 h)
  have hdirectoriesOnly : pattern.directoriesOnly = false := by
    obtain ⟨pieces, -, rfl⟩ := parse_eq_ok hparse
    exact isSlashed_eq_false hlast
  rcases stands_or_fileless_of_parse hbracket hlast hplace hparse with ⟨g, hg, hstands⟩ | hfileless
  · have hkind : s.tree.kind s.current g.path = some .file := by
      rw [← hfile, FileTree.kind, FileTree.kind, hstands.resolve_eq, hplace]
    have hcounts : (g.isDirectory || !pattern.directoriesOnly) = true := by
      rw [hdirectoriesOnly]
      exact Bool.or_true _
    exact .inr ⟨g.path, mem_files_iff.2 ⟨hkind, g, hg, hcounts, rfl⟩,
      hstands.resolve_eq.trans hplace.symm⟩
  · refine .inl (List.eq_nil_iff_forall_not_mem.2 fun path hpath => ?_)
    obtain ⟨hkind, g, hg, -, rfl⟩ := mem_files_iff.1 hpath
    exact hfileless g hg hkind

/-- So it leads to the only file that it stands for, if there is only one. -/
theorem resolve_eq_of_files {pattern : Pattern} {path : String} (hclosed : s.tree.Closed)
    (hbracket : '[' ∉ text.toList) (hfile : s.tree.kind s.current text = some .file)
    (hparse : parse text = .ok pattern) (hfiles : files s pattern = [path]) :
    s.tree.resolve s.current path = s.tree.resolve s.current text := by
  rcases files_eq_nil_or_exists hclosed hbracket hfile hparse with hnil | ⟨other, hmem, hleads⟩
  · rw [hfiles] at hnil
    cases hnil
  · rw [hfiles, List.mem_singleton] at hmem
    rwa [hmem] at hleads

end Pattern

end ChannelPreset
