import ChannelPreset.Files.Tree
import ChannelPreset.Proofs.Files.Path

/-!
# Walking and Filling a File Tree

In a file tree that is closed, whatever has a name lies in a directory. Making a directory keeps
everything that is there, and a file is written at the one place that its path points to. A path
points to that place from the directory that its parent leads to.
-/

namespace ChannelPreset

namespace FileTree

variable {t t' : FileTree} {current place final directory : Location} {path name : String}

/-! ## Looking up -/

theorem lookup_of_ne_nil (t : FileTree) (h : place ≠ []) :
    t.lookup place = t.nodes.lookup place := by
  cases place with
  | nil => exact absurd rfl h
  | cons first rest => rfl

theorem lookup_filter_of_ne {place key : Location} (nodes : List (Location × Node))
    (hne : place ≠ key) : (nodes.filter (·.1 != key)).lookup place = nodes.lookup place := by
  induction nodes with
  | nil => rfl
  | cons entry nodes ih =>
    obtain ⟨other, node⟩ := entry
    by_cases hother : other = key
    · rw [List.filter_cons_of_neg (by simp [hother]), ih, List.lookup_cons, hother,
        beq_eq_false_iff_ne.2 hne]
    · rw [List.filter_cons_of_pos (by simp [hother]), List.lookup_cons, List.lookup_cons, ih]

theorem lookup_insert (t : FileTree) (directory : Location) (name : String) (node : Node)
    (place : Location) :
    (t.insert (directory ++ [name]) node).lookup place =
      if place = directory ++ [name] then some node else t.lookup place := by
  by_cases h : place = directory ++ [name]
  · rw [if_pos h, h, lookup_of_ne_nil _ (by simp), insert, List.lookup_cons_self]
  · rw [if_neg h]
    by_cases hnil : place = []
    · rw [hnil]
      rfl
    · rw [lookup_of_ne_nil _ hnil, lookup_of_ne_nil _ hnil, insert, List.lookup_cons,
        beq_eq_false_iff_ne.2 h]
      exact lookup_filter_of_ne t.nodes h

/-- The content of the file at a location, if there is a file. -/
def content? (t : FileTree) (place : Location) : Option Bytes :=
  match t.lookup place with
  | some (.file content) => some content
  | _ => none

theorem content?_insert_of_ne {node : Node} (hne : place ≠ directory ++ [name]) :
    (t.insert (directory ++ [name]) node).content? place = t.content? place := by
  rw [content?, content?, lookup_insert, if_neg hne]

theorem content?_insert_file (content : Bytes) :
    (t.insert (directory ++ [name]) (.file content)).content? (directory ++ [name])
      = some content := by
  rw [content?, lookup_insert, if_pos rfl]

/-- A directory in a free place changes no file. -/
theorem content?_insert_directory (h : t.lookup (directory ++ [name]) = none) (place : Location) :
    (t.insert (directory ++ [name]) .directory).content? place = t.content? place := by
  by_cases hplace : place = directory ++ [name]
  · rw [content?, content?, lookup_insert, if_pos hplace, hplace, h]
  · exact content?_insert_of_ne hplace

/-- Whatever has a name lies in a directory. -/
def Closed (t : FileTree) : Prop :=
  ∀ directory name, (t.lookup (directory ++ [name])).isSome → t.lookup directory = some .directory

/-- Whatever lies in the first tree lies in the second tree as well. -/
def Keeps (t t' : FileTree) : Prop :=
  ∀ place node, t.lookup place = some node → t'.lookup place = some node

theorem Keeps.refl (t : FileTree) : Keeps t t :=
  fun _ _ h => h

theorem Keeps.trans {t₁ t₂ t₃ : FileTree} (h₁ : Keeps t₁ t₂) (h₂ : Keeps t₂ t₃) : Keeps t₁ t₃ :=
  fun place node h => h₂ place node (h₁ place node h)

theorem Keeps.insert (h : t.lookup (directory ++ [name]) = none) (node : Node) :
    Keeps t (t.insert (directory ++ [name]) node) := by
  intro place node' hplace
  rw [lookup_insert, if_neg, hplace]
  intro heq
  rw [heq, h] at hplace
  cases hplace

theorem closed_empty : empty.Closed := by
  intro directory name h
  rw [lookup_of_ne_nil _ (by simp)] at h
  cases h

theorem Closed.insert (hclosed : t.Closed) (hdirectory : t.lookup directory = some .directory)
    (h : t.lookup (directory ++ [name]) = none) (node : Node) :
    (t.insert (directory ++ [name]) node).Closed := by
  intro above below hbelow
  -- the directory of the new name was there before, and so was any other
  apply Keeps.insert h
  rw [lookup_insert] at hbelow
  split at hbelow
  · rename_i heq
    rw [(List.append_inj' heq rfl).1, hdirectory]
  · exact hclosed above below hbelow

theorem Closed.lookup_dropLast (hclosed : t.Closed) (h : t.lookup place = some .directory) :
    t.lookup place.dropLast = some .directory := by
  obtain rfl | ⟨above, last, rfl⟩ := List.eq_nil_or_concat place
  · rfl
  · rw [List.concat_eq_append] at h ⊢
    rw [List.dropLast_concat]
    exact hclosed above last (by rw [h]; rfl)

/-! ## Walking -/

theorem child_eq_ok (t : FileTree) {next : Location} (h : t.child directory name = .ok next) :
    next = directory ++ [name] ∧ (t.lookup next).isSome ∧
      (Utf8.encode name).length ≤ maxNameLength := by
  unfold child at h
  split at h
  · cases h
  split at h
  · cases h
    exact ⟨rfl, by assumption, by omega⟩
  · cases h

theorem child_eq_noSuchFile (t : FileTree) (h : t.child directory name = .error .noSuchFile) :
    t.lookup (directory ++ [name]) = none ∧ (Utf8.encode name).length ≤ maxNameLength := by
  unfold child at h
  split at h
  · cases h
  split at h
  · cases h
  · exact ⟨by simpa using ‹¬ (t.lookup (directory ++ [name])).isSome = true›, by omega⟩

theorem walk_append (t : FileTree) (place : Location) (front back : List String) :
    t.walk place (front ++ back) = (t.walk place front).bind (t.walk · back) := by
  induction front generalizing place with
  | nil => rfl
  | cons piece front ih =>
    rw [List.cons_append, walk, walk]
    split
    · split
      · exact ih place
      split
      · exact ih place.dropLast
      cases t.child place piece with
      | ok next => exact ih next
      | error e => rfl
    · rfl

/-- Pieces that lead on from a place: it is a directory, and the first of them is idle, leads back
up, or names something in it. -/
theorem walk_cons_eq_ok {piece : String} {rest : List String} :
    t.walk place (piece :: rest) = .ok final ↔
      t.lookup place = some .directory ∧
        (Path.isIdle piece = true ∧ t.walk place rest = .ok final ∨
          Path.isIdle piece = false ∧ piece = ".." ∧ t.walk place.dropLast rest = .ok final ∨
          Path.isIdle piece = false ∧ piece ≠ ".." ∧
            ∃ next, t.child place piece = .ok next ∧ t.walk next rest = .ok final) := by
  rw [walk]
  cases hplace : t.lookup place with
  | none => simp
  | some node =>
    cases node with
    | file content => simp
    | directory =>
      cases hidle : Path.isIdle piece with
      | true => simp
      | false =>
        by_cases hdots : piece = ".."
        · simp [hdots]
        · cases t.child place piece <;> simp [hdots]

/-- A walk stays possible where all directories stay directories, and whatever there is stays. -/
theorem walk_of_forall_lookup
    (hdirectory : ∀ place, t.lookup place = some .directory → t'.lookup place = some .directory)
    (hsome : ∀ place, (t.lookup place).isSome → (t'.lookup place).isSome) {pieces : List String}
    (h : t.walk place pieces = .ok final) : t'.walk place pieces = .ok final := by
  induction pieces generalizing place with
  | nil => exact h
  | cons piece rest ih =>
    rw [walk_cons_eq_ok] at h ⊢
    refine h.imp (hdirectory place) (Or.imp (And.imp_right ih) (Or.imp
      (And.imp_right (And.imp_right ih)) ?_))
    rintro ⟨hidle, hdots, next, hchild, hrest⟩
    obtain ⟨rfl, hnext, hlength⟩ := child_eq_ok t hchild
    refine ⟨hidle, hdots, _, ?_, ih hrest⟩
    rw [child, if_neg (Nat.not_lt.2 hlength), if_pos (hsome _ hnext)]

theorem lookup_start_of_walk {pieces : List String} (h : t.walk place pieces = .ok final)
    (hfinal : t.lookup final = some .directory) : t.lookup place = some .directory := by
  cases pieces with
  | nil =>
    cases h
    exact hfinal
  | cons piece rest => exact (walk_cons_eq_ok.1 h).1

/-- Idle pieces make no difference to a walk that ends at a directory. -/
theorem walk_filter {pieces : List String} (hfinal : t.lookup final = some .directory) :
    t.walk place (pieces.filter (!Path.isIdle ·)) = .ok final ↔ t.walk place pieces = .ok final := by
  induction pieces generalizing place with
  | nil => rfl
  | cons piece rest ih =>
    cases hidle : Path.isIdle piece with
    | true =>
      rw [List.filter_cons_of_neg (by simp [hidle]), ih, walk_cons_eq_ok]
      simp only [hidle, true_and, Bool.true_eq_false, false_and, or_false]
      exact ⟨fun h => ⟨lookup_start_of_walk h hfinal, h⟩, fun h => h.2⟩
    | false =>
      rw [List.filter_cons_of_pos (by simp [hidle]), walk_cons_eq_ok, walk_cons_eq_ok]
      simp only [ih]

/-- Without two dots, a walk only goes down. -/
theorem eq_append_of_walk {pieces : List String} (hdots : ".." ∉ pieces)
    (h : t.walk place pieces = .ok final) : final = place ++ pieces.filter (!Path.isIdle ·) := by
  induction pieces generalizing place with
  | nil =>
    cases h
    rw [List.filter_nil, List.append_nil]
  | cons piece rest ih =>
    rw [List.mem_cons, not_or] at hdots
    obtain ⟨-, ⟨hidle, h⟩ | ⟨-, hpiece, -⟩ | ⟨hidle, -, next, hchild, h⟩⟩ := walk_cons_eq_ok.1 h
    · rw [List.filter_cons_of_neg (by simp [hidle]), ih hdots.2 h]
    · exact absurd hpiece.symm hdots.1
    · obtain ⟨rfl, -⟩ := child_eq_ok t hchild
      rw [List.filter_cons_of_pos (by simp [hidle]), ih hdots.2 h, List.append_assoc,
        List.singleton_append]

/-- Without two dots, a walk to a directory stays possible in any closed tree that has it. -/
theorem Closed.walk_of_walk (hclosed : t.Closed) {pieces : List String} (hdots : ".." ∉ pieces)
    (h : t'.walk place pieces = .ok final) (hfinal : t.lookup final = some .directory) :
    t.walk place pieces = .ok final := by
  induction pieces generalizing place with
  | nil => exact h
  | cons piece rest ih =>
    -- the walk only goes down, so each place on it lies above the last one and is a directory
    have hdown := eq_append_of_walk hdots h
    rw [List.mem_cons, not_or] at hdots
    rw [walk_cons_eq_ok]
    obtain ⟨-, ⟨hidle, h⟩ | ⟨-, hpiece, -⟩ | ⟨hidle, hpiece, next, hchild, h⟩⟩ :=
      walk_cons_eq_ok.1 h
    · have hrest := ih hdots.2 h
      exact ⟨lookup_start_of_walk hrest hfinal, .inl ⟨hidle, hrest⟩⟩
    · exact absurd hpiece.symm hdots.1
    · obtain ⟨rfl, -, hlength⟩ := child_eq_ok t' hchild
      have hrest := ih hdots.2 h
      have hnext := lookup_start_of_walk hrest hfinal
      refine ⟨hclosed place piece (by rw [hnext]; rfl), .inr (.inr ⟨hidle, hpiece, _, ?_, hrest⟩)⟩
      unfold child
      rw [if_neg (Nat.not_lt.2 hlength), if_pos (by rw [hnext]; rfl)]

/-! ## Filling a place -/

/-- A path leads to a name in a directory, whether or not anything has that name there. -/
structure Points (t : FileTree) (current : Location) (path : String) (directory : Location)
    (name : String) : Prop where
  ne_empty : path ≠ ""
  length_le : (Utf8.encode path).length ≤ maxPathLength
  name_length_le : (Utf8.encode name).length ≤ maxNameLength
  isIdle_eq : Path.isIdle name = false
  ne_dots : name ≠ ".."
  lookup_eq : t.lookup directory = some .directory
  walk_eq : ∃ front, Path.pieces path = front ++ [name] ∧
    t.walk (origin current path) front = .ok directory

theorem Points.slot_eq (h : t.Points current path directory name) :
    t.slot current path = .ok (some { directory, name, slashed := false }) := by
  obtain ⟨front, hpieces, hwalk⟩ := h.walk_eq
  have hname := (Path.isIdle_eq_false_iff.1 h.isIdle_eq).1
  unfold slot
  rw [if_neg h.ne_empty, if_neg (Nat.not_lt.2 h.length_le), hpieces, List.reverse_append,
    List.reverse_singleton, List.singleton_append]
  dsimp only
  rw [List.dropWhile_cons_of_neg (by simp [hname])]
  dsimp only
  rw [List.reverse_reverse, hwalk]
  dsimp only
  rw [h.lookup_eq]
  simp [hname]

theorem Points.isDots_eq (h : t.Points current path directory name) : isDots name = false := by
  have hname := (Path.isIdle_eq_false_iff.1 h.isIdle_eq).2
  simp [isDots, hname, h.ne_dots]

theorem Points.child_eq (h : t.Points current path directory name) :
    t.child directory name =
      if (t.lookup (directory ++ [name])).isSome then .ok (directory ++ [name])
      else .error .noSuchFile := by
  unfold child
  rw [if_neg (Nat.not_lt.2 h.name_length_le)]

theorem Points.resolve_eq (h : t.Points current path directory name)
    (hsome : (t.lookup (directory ++ [name])).isSome) :
    t.resolve current path = .ok (directory ++ [name]) := by
  obtain ⟨front, hpieces, hwalk⟩ := h.walk_eq
  have hchild := h.child_eq
  rw [if_pos hsome] at hchild
  unfold resolve
  rw [if_neg h.ne_empty, if_neg (Nat.not_lt.2 h.length_le), hpieces, walk_append, hwalk]
  exact walk_cons_eq_ok.2 ⟨h.lookup_eq, .inr (.inr ⟨h.isIdle_eq, h.ne_dots, _, hchild, rfl⟩)⟩

/-- A path points where it did when a file has been put there, unless that was a directory. -/
theorem Points.insert_file (h : t.Points current path directory name)
    (hfree : t.lookup (directory ++ [name]) ≠ some .directory) (content : Bytes) :
    (t.insert (directory ++ [name]) (.file content)).Points current path directory name := by
  have hdirectory : ∀ place, t.lookup place = some .directory →
      (t.insert (directory ++ [name]) (.file content)).lookup place = some .directory := by
    intro place hplace
    rw [lookup_insert, if_neg, hplace]
    rintro rfl
    exact hfree hplace
  have hsome : ∀ place, (t.lookup place).isSome →
      ((t.insert (directory ++ [name]) (.file content)).lookup place).isSome := by
    intro place hplace
    rw [lookup_insert]
    split
    · rfl
    · exact hplace
  obtain ⟨front, hpieces, hwalk⟩ := h.walk_eq
  exact { h with
    lookup_eq := hdirectory _ h.lookup_eq
    walk_eq := ⟨front, hpieces, walk_of_forall_lookup hdirectory hsome hwalk⟩ }

theorem slot_eq_ok {s : Slot} (h : t.slot current path = .ok (some s)) :
    path ≠ "" ∧ (Utf8.encode path).length ≤ maxPathLength ∧
      t.lookup s.directory = some .directory ∧
      (s.slashed = false → s.name ≠ "" ∧ ∃ front, Path.pieces path = front ++ [s.name] ∧
        t.walk (origin current path) front = .ok s.directory) := by
  unfold slot at h
  split at h
  · cases h
  rename_i hempty
  split at h
  · cases h
  rename_i hlength
  refine ⟨hempty, by omega, ?_⟩
  dsimp only at h
  split at h
  · cases h
  rename_i name front hdrop
  split at h
  · cases h
  rename_i directory hwalk
  split at h
  · rename_i hdirectory
    cases h
    refine ⟨hdirectory, fun hslashed => ?_⟩
    -- without a slash at the end, no piece is dropped behind the name
    rw [← List.reverse_reverse (Path.pieces path)]
    cases hreversed : (Path.pieces path).reverse with
    | nil => exact absurd (List.reverse_eq_nil_iff.1 hreversed) (Path.pieces_ne_nil path)
    | cons last others =>
      rw [hreversed] at hdrop hslashed
      have hlast : last ≠ "" := by simpa using hslashed
      rw [List.dropWhile_cons_of_neg (by simpa using hlast)] at hdrop
      cases hdrop
      exact ⟨hlast, front.reverse, List.reverse_cons, hwalk⟩
  · cases h

/-- Where a path resolves to a file, it points there. -/
theorem exists_points_of_resolve (hclosed : t.Closed) {content : Bytes}
    (h : t.resolve current path = .ok place) (hfile : t.lookup place = some (.file content)) :
    ∃ directory name, place = directory ++ [name] ∧ t.Points current path directory name := by
  unfold resolve at h
  split at h
  · cases h
  rename_i hempty
  split at h
  · cases h
  rename_i hlength
  obtain hnil | ⟨front, name, hpieces⟩ := List.eq_nil_or_concat (Path.pieces path)
  · exact absurd hnil (Path.pieces_ne_nil path)
  rw [List.concat_eq_append] at hpieces
  rw [hpieces, walk_append] at h
  cases hwalk : t.walk (origin current path) front with
  | error e =>
    rw [hwalk] at h
    cases h
  | ok directory =>
    rw [hwalk] at h
    obtain ⟨hdirectory, ⟨-, h⟩ | ⟨-, -, h⟩ | ⟨hidle, hdots, next, hchild, h⟩⟩ := walk_cons_eq_ok.1 h
    · -- an idle piece ends at the directory that it is read in
      cases h
      rw [hdirectory] at hfile
      cases hfile
    · -- two dots end at a directory as well, since the tree is closed
      cases h
      rw [hclosed.lookup_dropLast hdirectory] at hfile
      cases hfile
    · cases h
      obtain ⟨rfl, -, hname⟩ := child_eq_ok t hchild
      exact ⟨directory, name, rfl, hempty, by omega, hname, hidle, hdots, hdirectory,
        front, hpieces, hwalk⟩

theorem makeDirectory_eq_ok (h : t.makeDirectory current path = .ok t') :
    ∃ directory name, t.lookup directory = some .directory ∧
      t.lookup (directory ++ [name]) = none ∧ t' = t.insert (directory ++ [name]) .directory := by
  unfold makeDirectory at h
  split at h
  · cases h
  · cases h
  rename_i s hslot
  split at h
  · cases h
  split at h
  · cases h
  rename_i e hchild
  split at h
  · rename_i he
    cases h
    rw [he] at hchild
    exact ⟨s.directory, s.name, (slot_eq_ok hslot).2.2.1, (child_eq_noSuchFile t hchild).1, rfl⟩
  · cases h

/-- Where a path leads, no place is free: it is the root, or has one of the two names that every
directory has, or something has its name already. -/
theorem slot_of_resolve (h : t.resolve current path = .ok place) :
    t.slot current path = .ok none ∨
      ∃ s, t.slot current path = .ok (some s) ∧
        (isDots s.name = true ∨ ∃ next, t.child s.directory s.name = .ok next) := by
  unfold resolve at h
  split at h
  · cases h
  rename_i hempty
  split at h
  · cases h
  rename_i hlength
  unfold slot
  rw [if_neg hempty, if_neg hlength]
  dsimp only
  cases hdrop : (Path.pieces path).reverse.dropWhile (· == "") with
  | nil => exact .inl rfl
  | cons name front =>
    -- the name is the last piece that is not empty
    have hname : name ≠ "" := by
      have := List.head?_dropWhile_not (· == "") (Path.pieces path).reverse
      rw [hdrop] at this
      simpa using this
    obtain ⟨slashes, hslashes⟩ := List.dropWhile_suffix (· == "") (l := (Path.pieces path).reverse)
    have hpieces : Path.pieces path = front.reverse ++ name :: slashes.reverse := by
      rw [← List.reverse_inj, ← hslashes, hdrop]
      simp
    -- the path leads through the directory of the place, and on by the name
    rw [hpieces, walk_append] at h
    dsimp only
    cases hwalk : t.walk (origin current path) front.reverse with
    | error e =>
      rw [hwalk] at h
      cases h
    | ok directory =>
      rw [hwalk] at h
      obtain ⟨hdirectory, hcases⟩ := walk_cons_eq_ok.1 h
      dsimp only
      rw [hdirectory]
      refine .inr ⟨_, rfl, ?_⟩
      dsimp only
      rcases hcases with ⟨hidle, -⟩ | ⟨-, hdots, -⟩ | ⟨-, -, next, hchild, -⟩
      · have hdot := (Path.isIdle_iff.1 hidle).resolve_left hname
        exact .inl (by simp [hdot, isDots])
      · exact .inl (by simp [hdots, isDots])
      · exact .inr ⟨next, hchild⟩

theorem makeDirectory_of_resolve (h : t.resolve current path = .ok place) :
    t.makeDirectory current path = .error .fileExists := by
  unfold makeDirectory
  rcases slot_of_resolve h with hslot | ⟨s, hslot, hdots | ⟨next, hchild⟩⟩
  · rw [hslot]
  · rw [hslot]
    exact if_pos hdots
  · rw [hslot]
    dsimp only
    rw [hchild]
    exact ite_self _

/-- A place that a path is about to fill, with a name of its own and no slash behind it, is where
the path points. -/
theorem points_of_slot {s : Slot} (h : t.slot current path = .ok (some s))
    (hslashed : s.slashed = false) (hdots : isDots s.name = false)
    (hname : (Utf8.encode s.name).length ≤ maxNameLength) :
    t.Points current path s.directory s.name := by
  obtain ⟨hempty, hlength, hdirectory, hwalk⟩ := slot_eq_ok h
  obtain ⟨hne, hwalk⟩ := hwalk hslashed
  have hdot : s.name ≠ "." ∧ s.name ≠ ".." := by simpa [isDots] using hdots
  exact ⟨hempty, hlength, hname, Path.isIdle_eq_false_iff.2 ⟨hne, hdot.1⟩, hdot.2, hdirectory,
    hwalk⟩

variable {content : Bytes}

/-- A file is written where the path points. -/
theorem exists_points_of_writeFile (h : t.writeFile current path content = .ok t') :
    ∃ directory name, t.Points current path directory name ∧
      t.lookup (directory ++ [name]) ≠ some .directory ∧
      t' = t.insert (directory ++ [name]) (.file content) := by
  unfold writeFile at h
  split at h
  · cases h
  · cases h
  rename_i s hslot
  split at h
  · cases h
  rename_i hdots
  rw [Bool.or_eq_true, not_or, Bool.not_eq_true, Bool.not_eq_true] at hdots
  have hpoints := points_of_slot hslot hdots.2 hdots.1
  refine ⟨s.directory, s.name, ?_⟩
  -- what is there is a file, which is replaced, or there is nothing yet
  split at h
  · rename_i next hchild
    obtain ⟨rfl, -, hname⟩ := child_eq_ok t hchild
    split at h
    · cases h
    · cases h
      exact ⟨hpoints hname, by assumption, rfl⟩
  · rename_i e hchild
    split at h
    · rename_i he
      cases h
      rw [he] at hchild
      obtain ⟨hnone, hname⟩ := child_eq_noSuchFile t hchild
      exact ⟨hpoints hname, by simp [hnone], rfl⟩
    · cases h

/-- Where a path points, a file can be written unless a directory is there. -/
theorem Points.writeFile_eq (h : t.Points current path directory name)
    (hfree : t.lookup (directory ++ [name]) ≠ some .directory) (content : Bytes) :
    t.writeFile current path content = .ok (t.insert (directory ++ [name]) (.file content)) := by
  unfold writeFile
  rw [h.slot_eq]
  dsimp only
  rw [h.isDots_eq, h.child_eq]
  cases hplace : t.lookup (directory ++ [name]) with
  | none => simp
  | some node =>
    rw [hplace] at hfree
    simp [hplace, hfree]

/-! ## Texts of places -/

/-- Whether names can stand between the slashes of a path. -/
def Plain (location : Location) : Prop :=
  ∀ name ∈ location, name ≠ "" ∧ '/' ∉ name.toList

theorem Plain.dropLast (h : Plain place) : Plain place.dropLast :=
  fun name hname => h name ((List.dropLast_sublist place).subset hname)

theorem Plain.walk {pieces : List String} (h : Plain place)
    (hpieces : ∀ piece ∈ pieces, '/' ∉ piece.toList) (hwalk : t.walk place pieces = .ok final) :
    Plain final := by
  induction pieces generalizing place with
  | nil =>
    cases hwalk
    exact h
  | cons piece rest ih =>
    have hrest : ∀ piece ∈ rest, '/' ∉ piece.toList :=
      fun piece hpiece => hpieces piece (List.mem_cons_of_mem _ hpiece)
    obtain ⟨-, ⟨-, hwalk⟩ | ⟨-, -, hwalk⟩ | ⟨hidle, -, next, hchild, hwalk⟩⟩ :=
      walk_cons_eq_ok.1 hwalk
    · exact ih h hrest hwalk
    · exact ih h.dropLast hrest hwalk
    · obtain ⟨rfl, -⟩ := child_eq_ok t hchild
      refine ih (fun name hname => ?_) hrest hwalk
      rcases List.mem_append.1 hname with hname | hname
      · exact h name hname
      · rw [List.mem_singleton.1 hname]
        exact ⟨(Path.isIdle_eq_false_iff.1 hidle).1, hpieces piece List.mem_cons_self⟩

theorem Points.plain (h : t.Points current path directory name) (hcurrent : Plain current) :
    Plain (directory ++ [name]) := by
  obtain ⟨front, hpieces, hwalk⟩ := h.walk_eq
  have hslash : ∀ piece ∈ front ++ [name], '/' ∉ piece.toList := by
    rw [← hpieces]
    exact fun piece => Path.notMem_of_mem_pieces
  -- the walk begins at a plain place and goes by pieces, which hold no slash
  have horigin : Plain (origin current path) := by
    unfold origin
    split
    · exact fun name hname => nomatch hname
    · exact hcurrent
  intro part hpart
  rcases List.mem_append.1 hpart with hpart | hpart
  · exact horigin.walk (fun piece hpiece => hslash piece (List.mem_append_left _ hpiece)) hwalk
      part hpart
  · rw [List.mem_singleton.1 hpart]
    exact ⟨(Path.isIdle_eq_false_iff.1 h.isIdle_eq).1, hslash name (by simp)⟩

theorem text_append_singleton (directory : Location) (name : String) :
    text (directory ++ [name]) =
      if directory = [] then "/" ++ name else text directory ++ "/" ++ name := by
  split
  · rename_i h
    rw [h, List.nil_append, text, String.intercalate_singleton]
  · rename_i h
    rw [text, text, String.intercalate_append_of_ne_nil h (List.cons_ne_nil _ _),
      String.intercalate_singleton, String.append_assoc, String.append_assoc, String.append_assoc]

theorem isSlashed_text (h : Plain place) : Path.isSlashed (text place) = place.isEmpty := by
  obtain rfl | ⟨above, last, rfl⟩ := List.eq_nil_or_concat place
  · rfl
  · rw [List.concat_eq_append] at h ⊢
    obtain ⟨hne, hslash⟩ := h last (by simp)
    have hlast : last.toList ≠ [] := by simpa using hne
    have htext : ∃ front, text (above ++ [last]) = front ++ last := by
      rw [text_append_singleton]
      split
      · exact ⟨_, rfl⟩
      · exact ⟨_, rfl⟩
    obtain ⟨front, htext⟩ := htext
    rw [htext, Path.isSlashed, String.toList_append, List.getLast?_append,
      List.getLast?_eq_some_getLast hlast]
    have hend : (last.toList.getLast hlast == '/') = false :=
      beq_eq_false_iff_ne.2 fun h => hslash (h ▸ List.getLast_mem hlast)
    simp [hend]

theorem join_text (h : Plain (directory ++ [name])) :
    Path.join (text directory) name = text (directory ++ [name]) := by
  have hname : Path.isAbsolute name = false := by
    cases habsolute : Path.isAbsolute name with
    | false => rfl
    | true =>
      refine absurd ?_ (h name (by simp)).2
      rw [Path.eq_slash_append_of_isAbsolute habsolute]
      simp
  have hdirectory : Plain directory := fun part hpart => h part (List.mem_append_left _ hpart)
  have hne : text directory ≠ "" := by
    intro heq
    have := congrArg String.toList heq
    simp [text] at this
  rw [Path.join, hname, isSlashed_text hdirectory, text_append_singleton]
  cases directory with
  | nil => rfl
  | cons first rest => simp [hne]

end FileTree

end ChannelPreset
