/-!
# Path Texts

What a path text says without looking at any file. A path is cut at its slashes into pieces. An
empty piece and a single dot name nothing by themselves, except that a dot in front names the
current directory; a slash in front names the root.
-/

namespace ChannelPreset.Path

/-- The pieces of a text between the characters that `isSeparator` holds for. -/
def cut (isSeparator : Char → Bool) : List Char → List (List Char)
  | [] => [[]]
  | c :: cs =>
    if isSeparator c then [] :: cut isSeparator cs
    else
      match cut isSeparator cs with
      | [] => [[c]]
      | piece :: pieces => (c :: piece) :: pieces

/-- The pieces of a path text between its slashes. -/
def pieces (text : String) : List String :=
  (cut (· == '/') text.toList).map String.ofList

/-- Whether a path begins at the root. -/
def isAbsolute (text : String) : Bool :=
  text.toList.head? == some '/'

/-- Whether a path text ends with a slash. -/
def isSlashed (text : String) : Bool :=
  text.toList.getLast? == some '/'

/-- Whether a piece names nothing: it is empty or a single dot. -/
def isIdle (piece : String) : Bool :=
  piece == "" || piece == "."

/-- What names the place where a path begins: the root, the current directory, or nothing. -/
def lead (text : String) : String :=
  match text.toList with
  | '/' :: _ => "/"
  | ['.'] => "."
  | '.' :: '/' :: _ => "."
  | _ => ""

/-- The pieces behind the lead, last first, without the idle ones at the end. -/
def reversedPieces (text : String) : List String :=
  (pieces (String.ofList (text.toList.drop (lead text).length))).reverse.dropWhile isIdle

/-- The path text without its last name. The root and the empty path have none. -/
def parent? (text : String) : Option String :=
  match reversedPieces text with
  | _ :: front =>
    some (lead text ++ String.intercalate "/" (front.dropWhile isIdle).reverse)
  | [] => if lead text == "." then some "" else none

/-- The last name of a path; two dots are no name. -/
def fileName? (text : String) : Option String :=
  match reversedPieces text with
  | name :: _ => if name == ".." then none else some name
  | [] => none

/-- Whether a path names the current directory by a dot alone. -/
def isCurrent (text : String) : Bool :=
  lead text == "." && (reversedPieces text).isEmpty

/-- A path read from the directory that another path names. -/
def join (directory path : String) : String :=
  if isAbsolute path then path
  else if directory == "" || isSlashed directory then directory ++ path
  else directory ++ "/" ++ path

end ChannelPreset.Path
