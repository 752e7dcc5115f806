import ChannelPreset.Proofs.Files.Tree
import ChannelPreset.Files.Pattern
import Mathlib.Data.List.Basic
import Mathlib.Data.List.TakeWhile

/-!
# What Lies Behind a Path

A path with one more name behind it: which text stands in front of the name (`Path.stem`), and that
the name is looked up in the directory that the path leads to (`FileTree.Leads.resolve_eq`). A path
that names the current directory is left out of the longer path, so that it has no text in front.
-/

namespace ChannelPreset

namespace Path

variable {path front back name : String}

/-! ## The current directory -/

theorem names_slash_append (back : String) : names ("/" ++ back) = names back := by
  rw [names, pieces_slash_append, List.filter_cons_of_neg (by simp), names]

theorem reversedPieces_eq_nil_iff : reversedPieces path = [] ↔ names (behind path) = [] := by
  rw [reversedPieces, ← behind, List.dropWhile_eq_nil_iff, names, List.filter_eq_nil_iff]
  simp

theorem lead_eq_dot_iff : lead path = "." ↔ (pieces path).head? = some "." := by
  constructor
  · intro hlead
    rcases lead_cases path with ⟨h, -⟩ | ⟨-, htext, -⟩ | ⟨-, back, htext, -⟩ | ⟨h, -⟩
    · rw [h] at hlead
      exact absurd hlead (by decide)
    · rw [htext]
      rfl
    · rw [htext, pieces_append, pieces_of_notMem (by simp)]
      rfl
    · rw [h] at hlead
      exact absurd hlead (by decide)
  · intro hhead
    -- a path is its pieces with slashes between them
    obtain ⟨rest, hrest⟩ := List.head?_eq_some_iff.1 hhead
    rw [← intercalate_pieces path, hrest]
    cases rest with
    | nil => rfl
    | cons piece rest =>
      rw [String.intercalate_cons_cons, lead]
      simp

/-- A path names the current directory when a dot stands in front and all its pieces are idle. -/
theorem isCurrent_iff :
    isCurrent path = true ↔ (pieces path).head? = some "." ∧ names path = [] := by
  rw [isCurrent, Bool.and_eq_true, beq_iff_eq, List.isEmpty_iff, reversedPieces_eq_nil_iff,
    ← lead_eq_dot_iff]
  refine and_congr_right fun hlead => ?_
  rcases lead_cases path with ⟨h, -⟩ | ⟨-, htext, hbehind⟩ | ⟨-, back, htext, hbehind⟩ | ⟨h, -⟩
  · rw [h] at hlead
    exact absurd hlead (by decide)
  · rw [hbehind, htext]
    exact iff_of_true (names_of_isIdle rfl) (names_of_isIdle rfl)
  · rw [hbehind, htext, names_append, names_of_isIdle isIdle_dot, names_slash_append,
      List.nil_append]
  · rw [h] at hlead
    exact absurd hlead (by decide)

theorem isCurrent_append :
    isCurrent (front ++ "/" ++ back) = true ↔ isCurrent front = true ∧ names back = [] := by
  rw [isCurrent_iff, isCurrent_iff, pieces_append, names_append, List.append_eq_nil_iff,
    List.head?_append_of_ne_nil (pieces front) (pieces_ne_nil front), and_assoc]

/-! ## Names behind a path -/

theorem pieces_append_slash (front : String) : pieces (front ++ "/") = pieces front ++ [""] := by
  have h := pieces_append front ""
  rwa [String.append_empty, pieces_empty] at h

theorem isCurrent_append_slash : isCurrent (front ++ "/") = true ↔ isCurrent front = true := by
  rw [← String.append_empty (s := front ++ "/"), isCurrent_append]
  exact and_iff_left (names_of_isIdle rfl)

theorem exists_of_isSlashed (h : isSlashed path = true) : ∃ front, path = front ++ "/" := by
  obtain ⟨cs, hcs⟩ := List.getLast?_eq_some_iff.1 (beq_iff_eq.1 h)
  refine ⟨String.ofList cs, ?_⟩
  rw [← String.toList_inj, hcs]
  simp

theorem isSlashed_eq_false (h : (pieces path).getLast? ≠ some "") : isSlashed path = false := by
  rw [Bool.eq_false_iff]
  intro hslashed
  obtain ⟨front, rfl⟩ := exists_of_isSlashed hslashed
  rw [pieces_append_slash, List.getLast?_append, List.getLast?_singleton] at h
  exact h rfl

/-- The text in front of a name that lies in the directory at a path. -/
def stem (path : String) : String :=
  if isCurrent path then "" else join path ""

/-- Unless a path names the current directory, names stand behind it and a slash, and the slash may
be its own last character. -/
theorem stem_cases (h : path ≠ "") :
    isCurrent path = true ∧ stem path = "" ∨
      isCurrent path = false ∧ ∃ front, stem path = front ++ "/" ∧
        (path = front ∨ path = front ++ "/") := by
  cases hcurrent : isCurrent path with
  | true => exact .inl ⟨rfl, if_pos hcurrent⟩
  | false =>
    refine .inr ⟨rfl, ?_⟩
    have hstem : stem path = if isSlashed path then path else path ++ "/" := by
      simp [stem, join, hcurrent, h, isAbsolute]
    rw [hstem]
    split
    · rename_i hslashed
      obtain ⟨front, hfront⟩ := exists_of_isSlashed hslashed
      exact ⟨front, hfront, .inr hfront⟩
    · exact ⟨path, rfl, .inl rfl⟩

theorem isAbsolute_of_notMem (h : '/' ∉ name.toList) : isAbsolute name = false := by
  rw [isAbsolute, beq_eq_false_iff_ne]
  exact fun hhead => h (List.mem_of_mem_head? hhead)

theorem isAbsolute_append (h : front ≠ "") : isAbsolute (front ++ back) = isAbsolute front := by
  obtain ⟨c, cs, hfront⟩ := List.exists_cons_of_ne_nil (mt String.toList_eq_nil_iff.1 h)
  rw [isAbsolute, isAbsolute, String.toList_append, hfront]
  rfl

end Path

namespace FileTree

variable {t : FileTree} {current place final : Location} {path name stem : String}

theorem mem_names_iff : name ∈ t.names place ↔ (t.lookup (place ++ [name])).isSome := by
  rw [lookup_of_ne_nil _ (by simp), List.lookup_isSome_iff, names, List.mem_mergeSort,
    List.mem_filterMap]
  refine exists_congr fun entry => and_congr_right fun _ => ?_
  obtain ⟨location, node⟩ := entry
  rw [beq_iff_eq]
  dsimp only
  constructor
  · intro h
    split at h
    · split at h
      · rename_i hlast heq
        cases h
        exact heq.symm
      · cases h
    · cases h
  · rintro rfl
    simp

/-- Whether names behind a text lie in the directory at a place. -/
def Leads (t : FileTree) (current : Location) (stem : String) (place : Location) : Prop :=
  ∀ name, '/' ∉ name.toList → ∃ front, Path.pieces (stem ++ name) = front ++ [name] ∧
    t.walk (origin current (stem ++ name)) front = .ok place

theorem walk_append_eq_ok (front back : List String) :
    t.walk place (front ++ back) = .ok final ↔
      ∃ next, t.walk place front = .ok next ∧ t.walk next back = .ok final := by
  rw [walk_append]
  cases t.walk place front with
  | ok next => simp [Except.bind]
  | error e => simp [Except.bind]

theorem resolve_eq_ok (h : t.resolve current path = .ok place) :
    path ≠ "" ∧ (Utf8.encode path).length ≤ maxPathLength ∧
      t.walk (origin current path) (Path.pieces path) = .ok place := by
  unfold resolve at h
  split at h
  · cases h
  split at h
  · cases h
  · exact ⟨‹_›, Nat.le_of_not_lt ‹_›, h⟩

theorem leads_stem (h : t.resolve current path = .ok place) :
    t.Leads current (Path.stem path) place := by
  obtain ⟨hempty, -, h⟩ := resolve_eq_ok h
  intro name hname
  obtain ⟨hcurrent, hstem⟩ | ⟨-, front, hstem, hpath⟩ := Path.stem_cases hempty
  · -- the path names the current directory, and so does nothing at all
    obtain ⟨hdot, hnames⟩ := Path.isCurrent_iff.1 hcurrent
    have hdots : ".." ∉ Path.pieces path := fun hdots => by
      have hidle := List.filter_eq_nil_iff.1 hnames _ hdots
      simp [Path.isIdle] at hidle
    have hplace := eq_append_of_walk hdots h
    rw [← Path.names, hnames, List.append_nil, origin, Path.isAbsolute_eq,
      Path.lead_eq_dot_iff.2 hdot] at hplace
    refine ⟨[], ?_, ?_⟩
    · rw [hstem, String.empty_append, Path.pieces_of_notMem hname, List.nil_append]
    · rw [hstem, String.empty_append, origin, Path.isAbsolute_of_notMem hname, hplace]
      rfl
  · refine ⟨Path.pieces front, by rw [hstem, Path.pieces_append, Path.pieces_of_notMem hname], ?_⟩
    have hslash : front ++ "/" ≠ "" := by simp
    rw [hstem, origin, Path.isAbsolute_append hslash]
    obtain rfl | rfl := hpath
    · rwa [Path.isAbsolute_append hempty]
    · -- the slash at the end of the path adds a piece that is idle
      rw [Path.pieces_append_slash, walk_append_eq_ok] at h
      obtain ⟨next, hfront, hidle⟩ := h
      obtain ⟨-, ⟨-, hnext⟩ | ⟨hname, -⟩ | ⟨hname, -⟩⟩ := walk_cons_eq_ok.1 hidle
      · cases hnext
        exact hfront
      · cases hname
      · cases hname

theorem lookup_of_walk {pieces : List String} (hne : pieces ≠ [])
    (h : t.walk place pieces = .ok final) : t.lookup place = some .directory := by
  cases pieces with
  | nil => exact absurd rfl hne
  | cons piece rest => exact (walk_cons_eq_ok.1 h).1

/-- Unless it leads up, a piece leads to something that is there. -/
theorem isSome_lookup_of_walk {piece : String} (hdots : piece ≠ "..")
    (h : t.walk place [piece] = .ok final) : (t.lookup final).isSome := by
  obtain ⟨hplace, ⟨-, hfinal⟩ | ⟨-, hpiece, -⟩ | ⟨-, -, child, hchild, hfinal⟩⟩ :=
    walk_cons_eq_ok.1 h
  · cases hfinal
    rw [hplace]
    rfl
  · exact absurd hpiece hdots
  · cases hfinal
    exact (child_eq_ok t hchild).2.1

theorem isSome_kind (h : t.resolve current path = .ok place) (hsome : (t.lookup place).isSome) :
    (t.kind current path).isSome := by
  obtain ⟨node, hnode⟩ := Option.isSome_iff_exists.1 hsome
  rw [kind, h]
  dsimp only
  rw [hnode]
  cases node <;> rfl

/-- A name behind a path is looked up in the directory that the path leads to. -/
theorem Leads.resolve_eq (h : t.Leads current stem place) (hname : '/' ∉ name.toList)
    (hne : stem ++ name ≠ "") (hlength : (Utf8.encode (stem ++ name)).length ≤ maxPathLength) :
    t.resolve current (stem ++ name) = t.walk place [name] := by
  obtain ⟨front, hpieces, hwalk⟩ := h name hname
  rw [resolve, if_neg hne, if_neg (Nat.not_lt.2 hlength), hpieces, walk_append, hwalk]
  rfl

end FileTree

namespace Pattern

theorem inside_eq {f : Found} {name : String} (h : '/' ∉ name.toList) :
    inside f name = Path.stem f.path ++ name := by
  rw [inside, Path.stem]
  split
  · rw [String.empty_append]
  · have hempty : Path.isAbsolute "" = false := rfl
    rw [Path.join, Path.join, Path.isAbsolute_of_notMem h, hempty]
    cases f.path == "" || Path.isSlashed f.path <;> simp

end Pattern

end ChannelPreset
