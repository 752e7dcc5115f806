import ChannelPreset.Files.Host
import ChannelPreset.Files.Path
import ChannelPreset.Text.Utf8

/-!
# File Trees

A file tree as a value: the directories and files below a root, each by the names that lead to it.
Paths are resolved name by name, and each piece of a path must be looked up in a directory. A
machine is a file tree with a current directory and what has been printed so far; it is a host.
-/

namespace ChannelPreset

/-- The names from the root to a place. -/
abbrev Location := List String

/-- What lies at a place. -/
inductive Node where
  | directory
  | file (content : Bytes)
  deriving DecidableEq

/-- A file tree. The root is always a directory and is not listed. -/
structure FileTree where
  nodes : List (Location × Node)
  deriving DecidableEq

namespace FileTree

/-- The tree with nothing below its root. -/
def empty : FileTree := ⟨[]⟩

/-- What lies at a location. -/
def lookup (t : FileTree) : Location → Option Node
  | [] => some .directory
  | location => t.nodes.lookup location

/-- The tree with a node put at a location, in place of what was there. -/
def insert (t : FileTree) (location : Location) (node : Node) : FileTree :=
  ⟨(location, node) :: t.nodes.filter (·.1 != location)⟩

/-- The tree with a directory at a location and at every location above it. -/
def insertDirectories (t : FileTree) (location : Location) : FileTree :=
  (List.range location.length).foldl
    (fun t n =>
      let above := location.take (n + 1)
      if (t.lookup above).isSome then t else t.insert above .directory) t

/-- The names in the directory at a location, in ascending order. -/
def names (t : FileTree) (location : Location) : List String :=
  let inside := t.nodes.filterMap fun (place, _) =>
    match place.getLast? with
    | some name => if place = location ++ [name] then some name else none
    | none => none
  inside.mergeSort fun a b => decide (a ≤ b)

/-- The files and their contents. -/
def files (t : FileTree) : List (Location × Bytes) :=
  t.nodes.filterMap fun (location, node) =>
    match node with
    | .file content => some (location, content)
    | .directory => none

/-- The files that are not the same in an earlier tree. -/
def changedFiles (t earlier : FileTree) : List (Location × Bytes) :=
  t.files.filter fun (location, content) => earlier.lookup location != some (.file content)

/-! ## Resolving paths -/

/-- The longest name of a file, in bytes. -/
def maxNameLength : Nat := 255

/-- The longest path text, in bytes. -/
def maxPathLength : Nat := 4095

/-- The place that a name leads to from a directory. A name that does not exist leads nowhere, and
one that could not exist is an error of its own. -/
def child (t : FileTree) (directory : Location) (name : String) : Except HostError Location :=
  if maxNameLength < (Utf8.encode name).length then .error .nameTooLong
  else if (t.lookup (directory ++ [name])).isSome then .ok (directory ++ [name])
  else .error .noSuchFile

/-- The place that the pieces of a path lead to from a place. -/
def walk (t : FileTree) : Location → List String → Except HostError Location
  | place, [] => .ok place
  | place, piece :: rest =>
    match t.lookup place with
    | some .directory =>
      if Path.isIdle piece then walk t place rest
      else if piece = ".." then walk t place.dropLast rest
      else
        match t.child place piece with
        | .ok next => walk t next rest
        | .error e => .error e
    | _ => .error .notADirectory

/-- The place where a path begins. -/
def origin (current : Location) (path : String) : Location :=
  if Path.isAbsolute path then [] else current

/-- The place that a path leads to. -/
def resolve (t : FileTree) (current : Location) (path : String) : Except HostError Location :=
  if path = "" then .error .noSuchFile
  else if maxPathLength < (Utf8.encode path).length then .error .nameTooLong
  else t.walk (origin current path) (Path.pieces path)

/-- A place that a path is about to fill: the directory it lies in, its name, and whether slashes
stand behind the name. -/
structure Slot where
  directory : Location
  name : String
  slashed : Bool

/-- The place that a path is about to fill. None stands for the root, which is always filled. -/
def slot (t : FileTree) (current : Location) (path : String) : Except HostError (Option Slot) :=
  if path = "" then .error .noSuchFile
  else if maxPathLength < (Utf8.encode path).length then .error .nameTooLong
  else
    let reversed := (Path.pieces path).reverse
    match reversed.dropWhile (· == "") with
    | [] => .ok none
    | name :: front =>
      match t.walk (origin current path) front.reverse with
      | .error e => .error e
      | .ok directory =>
        match t.lookup directory with
        | some .directory => .ok (some { directory, name, slashed := reversed.head? == some "" })
        | _ => .error .notADirectory

/-- Whether a name is one of the two that every directory has. -/
def isDots (name : String) : Bool :=
  name == "." || name == ".."

/-- The tree with one more directory. -/
def makeDirectory (t : FileTree) (current : Location) (path : String) :
    Except HostError FileTree :=
  match t.slot current path with
  | .error e => .error e
  | .ok none => .error .fileExists
  | .ok (some s) =>
    if isDots s.name then .error .fileExists
    else
      match t.child s.directory s.name with
      | .ok _ => .error .fileExists
      | .error e =>
        if e = .noSuchFile then .ok (t.insert (s.directory ++ [s.name]) .directory)
        else .error e

/-- The tree with a content for a file. -/
def writeFile (t : FileTree) (current : Location) (path : String) (content : Bytes) :
    Except HostError FileTree :=
  match t.slot current path with
  | .error e => .error e
  | .ok none => .error .isADirectory
  | .ok (some s) =>
    if isDots s.name || s.slashed then .error .isADirectory
    else
      match t.child s.directory s.name with
      | .ok place =>
        if t.lookup place = some .directory then .error .isADirectory
        else .ok (t.insert place (.file content))
      | .error e =>
        if e = .noSuchFile then .ok (t.insert (s.directory ++ [s.name]) (.file content))
        else .error e

/-- The content of a file. -/
def readFile (t : FileTree) (current : Location) (path : String) : Except HostError Bytes :=
  match t.resolve current path with
  | .error e => .error e
  | .ok place =>
    match t.lookup place with
    | some (.file content) => .ok content
    | some .directory => .error .isADirectory
    | none => .error .noSuchFile

/-- What a path names. -/
def kind (t : FileTree) (current : Location) (path : String) : Option NodeKind :=
  match t.resolve current path with
  | .error _ => none
  | .ok place =>
    match t.lookup place with
    | some (.file _) => some .file
    | some .directory => some .directory
    | none => none

/-- The text of a location. -/
def text (location : Location) : String :=
  "/" ++ String.intercalate "/" location

end FileTree

/-- A machine: its files, where commands run, and what they have printed. -/
structure Machine where
  tree : FileTree
  current : Location
  output : String
  errors : String
  deriving DecidableEq

namespace Machine

/-- A machine on which nothing has run. -/
def start (tree : FileTree) (current : Location) : Machine :=
  { tree, current, output := "", errors := "" }

/-- An operation that looks at the machine. -/
def look {α : Type} (f : Machine → α) : StateM Machine α :=
  fun s => (f s, s)

/-- An operation that changes the files, or fails and changes nothing. -/
def change (f : Machine → Except HostError FileTree) : StateM Machine (Except HostError Unit) :=
  fun s =>
    match f s with
    | .ok tree => (.ok (), { s with tree })
    | .error e => (.error e, s)

/-- The host that a machine is. -/
def host : Host (StateM Machine) where
  kind path := look fun s => s.tree.kind s.current path
  names path := look fun s =>
    match s.tree.resolve s.current path with
    | .ok place => s.tree.names place
    | .error _ => []
  realPath path := look fun s => (s.tree.resolve s.current path).map FileTree.text
  readFile path := look fun s => s.tree.readFile s.current path
  makeDirectory path := change fun s => s.tree.makeDirectory s.current path
  writeFile path content := change fun s => s.tree.writeFile s.current path content
  print text := fun s => ((), { s with output := s.output ++ text })
  report text := fun s => ((), { s with errors := s.errors ++ text })

end Machine

end ChannelPreset
