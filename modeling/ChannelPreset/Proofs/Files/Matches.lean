import ChannelPreset.Proofs.Files.Looking

/-!
# What a Pattern Finds

What the pieces of a pattern find on a machine, one equation for each way in which a piece is taken:
a plain piece is looked up, two asterisks go through everything below a directory, and any other
piece is compared with the names in a directory.
-/

namespace ChannelPreset

namespace Pattern

open Machine

variable {s : Machine}

/-- A path with what it names on a machine. -/
def found (s : Machine) (path : String) : Found :=
  ⟨path, s.tree.kind s.current path == some .directory⟩

theorem seen_find (path : String) : s.seen (find host path) = found s path :=
  rfl

theorem hasName_of_fileName? {piece : Piece} {f : Found} {name : String}
    (h : Path.fileName? f.path = some name) : hasName piece f = covers piece name.toList := by
  unfold hasName
  rw [h]

/-- What lies in a directory on a machine. -/
def below (s : Machine) (directory : Found) : List Found :=
  s.seen (children host directory)

theorem below_eq (directory : Found) :
    below s directory = (s.seen (host.names directory.path)).map fun name =>
      found s (inside directory name) := by
  have hlooks : OnlyLooks (host.names directory.path) := OnlyLooks.look _
  rw [below, children, hlooks.seen_bind, seen_mapM fun _ => onlyLooks_find _]
  rfl

theorem below_of_resolve {directory : Found} {place : Location}
    (h : s.tree.resolve s.current directory.path = .ok place) :
    below s directory = (s.tree.names place).map fun name => found s (inside directory name) := by
  have hnames : s.seen (host.names directory.path) = s.tree.names place := by
    dsimp only [seen, host, look, StateT.run]
    rw [h]
  rw [below_eq, hnames]

theorem eq_found_of_mem_below {directory child : Found} (h : child ∈ below s directory) :
    child = found s child.path := by
  rw [below_eq, List.mem_map] at h
  obtain ⟨name, -, rfl⟩ := h
  rfl

/-- What lies below a directory on a machine, down to a depth. -/
def deep (s : Machine) (depth : Nat) (directory : Found) : List Found :=
  s.seen (descendants host depth directory)

theorem deep_succ (depth : Nat) (directory : Found) :
    deep s (depth + 1) directory = (below s directory).flatMap fun child =>
      if child.isDirectory then child :: deep s depth child else [child] := by
  rw [deep, descendants, (onlyLooks_children directory).seen_bind, seen_flatMapM]
  · refine congrArg (below s directory).flatMap (funext fun child => ?_)
    split
    · rw [(onlyLooks_descendants depth child).seen_bind]
      rfl
    · rfl
  · intro child
    split
    · exact (onlyLooks_descendants depth child).bind fun _ => .pure _
    · exact .pure _

theorem eq_found_of_mem_deep {depth : Nat} {directory g : Found}
    (h : g ∈ deep s depth directory) : g = found s g.path := by
  induction depth generalizing directory with
  | zero => cases h
  | succ depth ih =>
    rw [deep_succ, List.mem_flatMap] at h
    obtain ⟨child, hchild, h⟩ := h
    split at h
    · rcases List.mem_cons.1 h with rfl | h
      · exact eq_found_of_mem_below hchild
      · exact ih h
    · rw [List.mem_singleton.1 h]
      exact eq_found_of_mem_below hchild

/-- What pieces stand for on a machine, from a path on. -/
def finds (s : Machine) (pieces : List Piece) (start : Found) : List Found :=
  s.seen (expand host pieces start)

variable {piece : Piece} {pieces : List Piece} {f : Found}

theorem finds_nil (f : Found) : finds s [] f = [f] := by
  rw [finds, expand]
  rfl

/-- Whether there is a name behind a path, as a plain piece is looked up. -/
def isNamed (s : Machine) (f : Found) (name : String) : Bool :=
  if name == "." || name == ".." then f.isDirectory
  else (s.tree.kind s.current (inside f name)).isSome

theorem finds_of_plain {chars : List Char} (h : plain? piece = some chars) (pieces : List Piece)
    (f : Found) :
    finds s (piece :: pieces) f =
      if isNamed s f (String.ofList chars) then
        finds s pieces (found s (inside f (String.ofList chars)))
      else [] := by
  rw [finds, expand, h]
  dsimp only
  rw [(onlyLooks_find _).seen_bind, seen_find, isNamed]
  have hlooks : OnlyLooks (host.kind (found s (inside f (String.ofList chars))).path) :=
    OnlyLooks.look _
  split
  · rw [(OnlyLooks.pure _).seen_bind, seen_pure]
    split <;> rfl
  · rw [hlooks.seen_bind, (OnlyLooks.pure _).seen_bind, seen_pure]
    split
    · rename_i hsome
      exact (if_pos hsome).symm
    · rename_i hnone
      exact (if_neg hnone).symm

section Signs

variable (hplain : plain? piece = none)

include hplain

theorem finds_of_not_isDirectory (h : f.isDirectory = false) :
    finds s (piece :: pieces) f = [] := by
  rw [finds, expand, hplain, h]
  rfl

/-- Signs that are no plain text are compared with names in a directory. -/
theorem isDirectory_of_mem_finds {g : Found} (h : g ∈ finds s (piece :: pieces) f) :
    f.isDirectory = true := by
  cases hdirectory : f.isDirectory with
  | true => rfl
  | false =>
    rw [finds_of_not_isDirectory hplain hdirectory] at h
    cases h

theorem finds_of_dropWhile_eq_nil (hdirectory : f.isDirectory = true)
    (h : isRecursive piece = true) (hdrop : pieces.dropWhile isRecursive = []) :
    finds s (piece :: pieces) f = (deep s maxDepth f).filter (·.isDirectory) := by
  rw [finds, expand, hplain]
  dsimp only
  rw [if_neg (by simp [hdirectory]), if_pos h]
  split
  · rw [(onlyLooks_descendants _ _).seen_bind]
    rfl
  · rename_i hdrop'
    rw [hdrop] at hdrop'
    cases hdrop'

theorem finds_of_dropWhile_eq_cons {last : Piece} {rest : List Piece}
    (hdirectory : f.isDirectory = true) (h : isRecursive piece = true)
    (hdrop : pieces.dropWhile isRecursive = last :: rest) :
    finds s (piece :: pieces) f =
      (deep s maxDepth f).flatMap fun g => if hasName last g then finds s rest g else [] := by
  rw [finds, expand, hplain]
  dsimp only
  rw [if_neg (by simp [hdirectory]), if_pos h]
  split
  · rename_i hdrop'
    rw [hdrop] at hdrop'
    cases hdrop'
  · rename_i hdrop'
    rw [hdrop] at hdrop'
    cases hdrop'
    have hrest : ∀ g, OnlyLooks (if hasName last g then expand host rest g else Pure.pure []) :=
      fun g => .ite (onlyLooks_expand rest g) (.pure [])
    have hseen : ∀ g, s.seen (if hasName last g then expand host rest g else Pure.pure []) =
        if hasName last g then finds s rest g else [] := by
      intro g
      split <;> rfl
    rw [(onlyLooks_descendants _ _).seen_bind, seen_flatMapM hrest, ← deep]
    simp only [hseen]

theorem finds_of_not_isRecursive (hdirectory : f.isDirectory = true)
    (h : isRecursive piece = false) :
    finds s (piece :: pieces) f =
      ((dotNames piece).flatMap fun name => finds s pieces (found s (Path.join f.path name))) ++
        (below s f).flatMap fun child =>
          if hasName piece child then finds s pieces child else [] := by
  have hdots : ∀ name, OnlyLooks (do expand host pieces (← find host (Path.join f.path name))) :=
    fun name => (onlyLooks_find _).bind (onlyLooks_expand pieces)
  have hothers : ∀ child, OnlyLooks
      (if hasName piece child then expand host pieces child else Pure.pure []) :=
    fun child => .ite (onlyLooks_expand pieces child) (.pure [])
  have hnext : ∀ name, s.seen (do expand host pieces (← find host (Path.join f.path name))) =
      finds s pieces (found s (Path.join f.path name)) :=
    fun name => (onlyLooks_find _).seen_bind _
  have hseen : ∀ child, s.seen (if hasName piece child then expand host pieces child
      else Pure.pure []) = if hasName piece child then finds s pieces child else [] := by
    intro child
    split <;> rfl
  rw [finds, expand, hplain]
  dsimp only
  rw [if_neg (by simp [hdirectory]), if_neg (by simp [h]),
    (OnlyLooks.flatMapM hdots _).seen_bind, (onlyLooks_children f).seen_bind,
    (OnlyLooks.flatMapM hothers _).seen_bind, seen_pure, seen_flatMapM hdots,
    seen_flatMapM hothers, ← below]
  simp only [hseen, hnext]

end Signs

end Pattern

end ChannelPreset
