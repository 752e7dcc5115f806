import ChannelPreset.Proofs.Files.Matches
import ChannelPreset.Proofs.Files.Stem

/-!
# Following a Path through what a Pattern Finds

A path that a pattern has found stands at a place when it leads there and the rest of a text can be
read behind it (`Pattern.Stands`). The next piece of the text leads on to a longer path that stands
at the next place (`Stands.step`), and names that lead down from a place are found below it
(`Stands.exists_mem_deep`).
-/

namespace ChannelPreset

namespace Path

/-- The length of a path text in bytes. -/
def size (text : String) : Nat :=
  (Utf8.encode text).length

theorem size_append (front back : String) : size (front ++ back) = size front + size back := by
  rw [size, size, size, Utf8.encode, String.toList_append, List.flatMap_append, List.length_append]
  rfl

theorem size_slash : size "/" = 1 := by
  decide

/-- The length of pieces with a slash behind each of them. -/
def span : List String → Nat
  | [] => 0
  | piece :: pieces => size piece + 1 + span pieces

theorem size_intercalate {pieces : List String} (h : pieces ≠ []) :
    size ("/".intercalate pieces) + 1 = span pieces := by
  induction pieces with
  | nil => exact absurd rfl h
  | cons piece pieces ih =>
    cases pieces with
    | nil =>
      rw [String.intercalate_singleton]
      rfl
    | cons next pieces =>
      rw [String.intercalate_cons_cons, size_append, size_append, size_slash, span, ← ih (by simp)]
      omega

theorem size_stem_le {path : String} (h : path ≠ "") : size (stem path) ≤ size path + 1 := by
  obtain ⟨-, hstem⟩ | ⟨-, front, hstem, hpath⟩ := stem_cases h
  · rw [hstem]
    exact Nat.zero_le _
  · rw [hstem]
    obtain rfl | rfl := hpath
    · rw [size_append, size_slash]
    · exact Nat.le_succ _

/-- Whether a piece of a path names something in a directory. -/
def IsName (piece : String) : Prop :=
  isIdle piece = false ∧ piece ≠ ".."

theorem isName_of_fileName? {path name : String} (h : fileName? path = some name) :
    IsName name := by
  unfold fileName? at h
  split at h
  · rename_i name' front hreversed
    split at h
    · cases h
    · rename_i hdots
      cases h
      have hdots : name ≠ ".." := by simpa using hdots
      have hidle : ∀ {parts : List String}, parts.dropWhile isIdle = name :: front →
          isIdle name = false := by
        intro parts hparts
        have hhead := List.head?_dropWhile_not isIdle parts
        rwa [hparts] at hhead
      exact ⟨hidle hreversed, hdots⟩
  · cases h

theorem length_le_span (pieces : List String) : pieces.length ≤ span pieces := by
  induction pieces with
  | nil => exact Nat.le_refl 0
  | cons piece pieces ih =>
    rw [List.length_cons, span]
    omega

end Path

namespace Pattern

open Machine ChannelPreset.Path

variable {s : Machine} {f : Found} {place next final : Location} {piece : String}
  {rest texts : List String}

/-- A path that was found leads to a place, and pieces of a path can be read behind it: the path
does not get too long by them, and none of them stands for nothing at all. -/
structure Stands (s : Machine) (f : Found) (place : Location) (texts : List String) : Prop where
  eq_found : f = found s f.path
  resolve_eq : s.tree.resolve s.current f.path = .ok place
  room : size (stem f.path) + span texts ≤ FileTree.maxPathLength + 1
  unbroken : isCurrent f.path = true → (texts.dropWhile (· == ".")).head? ≠ some ""

namespace Stands

theorem path_ne_empty (h : Stands s f place texts) : f.path ≠ "" := by
  intro hpath
  have := h.resolve_eq
  rw [hpath] at this
  cases this

theorem isDirectory_eq (h : Stands s f place texts)
    (hplace : s.tree.lookup place = some .directory) : f.isDirectory = true := by
  rw [h.eq_found, found, FileTree.kind, h.resolve_eq]
  dsimp only
  rw [hplace]
  rfl

theorem stem_append_ne_empty (h : Stands s f place (piece :: rest)) :
    stem f.path ++ piece ≠ "" := by
  intro hempty
  obtain ⟨hstem, rfl⟩ := String.append_eq_empty_iff.1 hempty
  obtain ⟨hcurrent, -⟩ | ⟨-, front, hfront, -⟩ := stem_cases h.path_ne_empty
  · exact h.unbroken hcurrent rfl
  · rw [hfront] at hstem
    simp at hstem

/-- Only dots lead from a path that names the current directory to one that names it as well. -/
theorem isCurrent_of_isCurrent_stem_append (h : Stands s f place texts)
    (hslash : '/' ∉ piece.toList) (hcurrent : isCurrent (stem f.path ++ piece) = true) :
    isCurrent f.path = true ∧ piece = "." := by
  obtain ⟨hf, hstem⟩ | ⟨hf, front, hstem, hpath⟩ := stem_cases h.path_ne_empty
  · rw [hstem, String.empty_append, isCurrent_iff, pieces_of_notMem hslash] at hcurrent
    exact ⟨hf, Option.some_inj.1 hcurrent.1⟩
  · rw [hstem, isCurrent_append] at hcurrent
    refine absurd ?_ (Bool.eq_false_iff.1 hf)
    obtain hpath | hpath := hpath
    · rw [hpath]
      exact hcurrent.1
    · rw [hpath]
      exact isCurrent_append_slash.2 hcurrent.1

/-- A piece that leads on from the place of a path is found behind the path. -/
theorem step (h : Stands s f place (piece :: rest)) (hslash : '/' ∉ piece.toList)
    (hwalk : s.tree.walk place [piece] = .ok next) :
    Stands s (found s (stem f.path ++ piece)) next rest where
  eq_found := rfl
  resolve_eq := by
    have hroom := h.room
    rw [span, ← Nat.add_assoc, ← Nat.add_assoc, ← size_append] at hroom
    have hlength : size (stem f.path ++ piece) ≤ FileTree.maxPathLength := by omega
    rw [← hwalk]
    exact (FileTree.leads_stem h.resolve_eq).resolve_eq hslash h.stem_append_ne_empty hlength
  room := by
    have hroom := h.room
    have hstem := size_stem_le h.stem_append_ne_empty
    rw [size_append] at hstem
    rw [span] at hroom
    dsimp only [found]
    omega
  unbroken hcurrent := by
    obtain ⟨hf, rfl⟩ := h.isCurrent_of_isCurrent_stem_append hslash hcurrent
    exact h.unbroken hf

/-- The last name of a path with a name behind it is that name. -/
theorem fileName?_eq (h : Stands s f place texts) (hslash : '/' ∉ piece.toList)
    (hname : IsName piece) : fileName? (stem f.path ++ piece) = some piece := by
  obtain ⟨front, hpieces, -⟩ := FileTree.leads_stem h.resolve_eq piece hslash
  exact fileName?_eq_some hpieces hname.1 hname.2

/-- A name that leads on from the place of a path is among the names below the path. -/
theorem mem_below (h : Stands s f place texts) (hslash : '/' ∉ piece.toList)
    (hname : IsName piece) (hwalk : s.tree.walk place [piece] = .ok next) :
    found s (stem f.path ++ piece) ∈ below s f := by
  obtain ⟨-, ⟨hidle, -⟩ | ⟨-, hdots, -⟩ | ⟨-, -, child, hchild, -⟩⟩ :=
    FileTree.walk_cons_eq_ok.1 hwalk
  · rw [hname.1] at hidle
    cases hidle
  · exact absurd hdots hname.2
  · obtain ⟨rfl, hsome, -⟩ := FileTree.child_eq_ok s.tree hchild
    rw [below_of_resolve h.resolve_eq, List.mem_map]
    exact ⟨piece, FileTree.mem_names_iff.2 hsome, by rw [inside_eq hslash]⟩

/-- A piece that leads on from the place of a path is there when it is looked up. -/
theorem isNamed_eq (h : Stands s f place (piece :: rest)) (hslash : '/' ∉ piece.toList)
    (hwalk : s.tree.walk place [piece] = .ok next) : isNamed s f piece = true := by
  rw [isNamed]
  split
  · exact h.isDirectory_eq (FileTree.walk_cons_eq_ok.1 hwalk).1
  · rename_i hdots
    have hpiece : piece ≠ ".." := by
      rintro rfl
      exact hdots rfl
    rw [inside_eq hslash]
    exact FileTree.isSome_kind (h.step hslash hwalk).resolve_eq
      (FileTree.isSome_lookup_of_walk hpiece hwalk)

/-- Names that lead down from the place of a path are found below it. -/
theorem exists_mem_deep {front : List String} {last : String} {depth : Nat}
    (hslash : ∀ name ∈ front ++ [last], '/' ∉ name.toList)
    (hnames : ∀ name ∈ front ++ [last], IsName name)
    (h : Stands s f place (front ++ last :: rest))
    (hwalk : s.tree.walk place (front ++ [last]) = .ok final) (hdepth : front.length < depth) :
    ∃ g ∈ deep s depth f, Stands s g final rest ∧ fileName? g.path = some last := by
  induction front generalizing f place depth with
  | nil =>
    obtain ⟨depth, rfl⟩ := Nat.exists_eq_add_one.2 hdepth
    have hlast := hslash last List.mem_cons_self
    have hname := hnames last List.mem_cons_self
    refine ⟨_, ?_, h.step hlast hwalk, h.fileName?_eq hlast hname⟩
    rw [deep_succ, List.mem_flatMap]
    refine ⟨_, h.mem_below hlast hname hwalk, ?_⟩
    split <;> exact List.mem_cons_self
  | cons piece front ih =>
    obtain ⟨depth, rfl⟩ := Nat.exists_eq_add_one.2 (Nat.zero_lt_of_lt hdepth)
    rw [List.cons_append, List.forall_mem_cons] at hslash hnames
    obtain ⟨next, hnext, hrest⟩ := (FileTree.walk_append_eq_ok [piece] _).1 hwalk
    have hstep := h.step hslash.1 hnext
    obtain ⟨g, hg, hstands⟩ := ih hslash.2 hnames.2 hstep hrest (Nat.lt_of_succ_lt_succ hdepth)
    refine ⟨g, ?_, hstands⟩
    rw [deep_succ, List.mem_flatMap]
    refine ⟨_, h.mem_below hslash.1 hnames.1 hnext, ?_⟩
    -- more names lead on from it, so it is a directory
    have hdirectory := hstep.isDirectory_eq (FileTree.lookup_of_walk (by simp) hrest)
    rw [if_pos hdirectory]
    exact List.mem_cons_of_mem _ hg

end Stands

end Pattern

end ChannelPreset
