import ChannelPreset.Files.Host
import ChannelPreset.Files.Path

/-!
# File Patterns

A pattern is a path whose pieces may stand for several names. A question mark stands for one
character, an asterisk for any characters, a class in brackets for one of its characters, or with an
exclamation mark in front for one that is not in it. A piece of two asterisks stands for any
directories one below the other.

The paths that match are found piece by piece from the root or the current directory. A piece
without any of these signs is looked up; the others are compared with the names in a directory, in
ascending order, everything below a name coming right behind it.
-/

namespace ChannelPreset

namespace Pattern

/-- A member of a class: one character, or all from one to another. -/
inductive Range where
  | single (c : Char)
  | span (first last : Char)
  deriving DecidableEq, Repr

/-- Whether a character belongs to a member of a class. -/
def Range.contains : Range → Char → Bool
  | .single d, c => c == d
  | .span first last, c => decide (first ≤ c) && decide (c ≤ last)

/-- One sign of a pattern. -/
inductive Sign where
  | char (c : Char)
  | anyChar
  | anyText
  | within (members : List Range)
  | outside (members : List Range)
  /-- Two asterisks. -/
  | anyDirectories
  deriving DecidableEq, Repr

/-- What is wrong with a pattern. -/
inductive Fault where
  | wildcards
  | recursion
  | range
  deriving DecidableEq, Repr

/-- The message of a fault. -/
def Fault.message : Fault → String
  | .wildcards => "wildcards are either regular `*` or recursive `**`"
  | .recursion => "recursive wildcards must form a single path component"
  | .range => "invalid range pattern"

/-! ## Reading patterns -/

/-- The members of a class. A minus between two characters makes a span of them. -/
def members : List Char → List Range
  | a :: '-' :: b :: rest => .span a b :: members rest
  | a :: rest => .single a :: members rest
  | [] => []

/-- The text in front of the first closing bracket, and the text behind it. -/
def untilBracket : List Char → Option (List Char × List Char)
  | [] => none
  | c :: cs => if c = ']' then some ([], cs) else (untilBracket cs).map fun (a, b) => (c :: a, b)

/-- The class behind an opening bracket, and the text behind the class. The first character of a
class belongs to it whatever it is. -/
def readClass : List Char → Option (Sign × List Char)
  | '!' :: c :: cs => (untilBracket cs).map fun (inside, rest) =>
      (.outside (members (c :: inside)), rest)
  | '!' :: [] => none
  | c :: cs => (untilBracket cs).map fun (inside, rest) => (.within (members (c :: inside)), rest)
  | [] => none

theorem length_untilBracket {cs inside rest : List Char}
    (h : untilBracket cs = some (inside, rest)) : rest.length < cs.length := by
  induction cs generalizing inside with
  | nil => cases h
  | cons c cs ih =>
    unfold untilBracket at h
    split at h
    · cases h
      simp
    · obtain ⟨⟨a, b⟩, hab, hrest⟩ := Option.map_eq_some_iff.1 h
      cases hrest
      exact Nat.lt_trans (ih hab) (by simp)

theorem length_readClass {cs rest : List Char} {sign : Sign}
    (h : readClass cs = some (sign, rest)) : rest.length < cs.length := by
  unfold readClass at h
  split at h
  · obtain ⟨⟨a, b⟩, hab, hrest⟩ := Option.map_eq_some_iff.1 h
    cases hrest
    have := length_untilBracket hab
    simp only [List.length_cons]
    omega
  · cases h
  · obtain ⟨⟨a, b⟩, hab, hrest⟩ := Option.map_eq_some_iff.1 h
    cases hrest
    have := length_untilBracket hab
    simp only [List.length_cons]
    omega
  · cases h

/-- Whether a place in a text is the edge of a piece, told by the character there, if any. -/
def isEdge : Option Char → Bool
  | none => true
  | some c => c == '/'

/-- The signs of a text, given the character in front of it. -/
def read (before : Option Char) : List Char → Except Fault (List Sign)
  | [] => .ok []
  | '*' :: '*' :: '*' :: _ => .error .wildcards
  | '*' :: '*' :: cs =>
    if isEdge before && isEdge cs.head? then (read (some '*') cs).map (.anyDirectories :: ·)
    else .error .recursion
  | '*' :: cs => (read (some '*') cs).map (.anyText :: ·)
  | '?' :: cs => (read (some '?') cs).map (.anyChar :: ·)
  | '[' :: cs =>
    match h : readClass cs with
    | none => .error .range
    | some (sign, rest) =>
      have := length_readClass h
      (read (some ']') rest).map (sign :: ·)
  | c :: cs => (read (some c) cs).map (.char c :: ·)
termination_by cs => cs.length

/-! ## Matching names -/

/-- Whether a sign for one character stands for a given one. -/
def Sign.accepts : Sign → Char → Bool
  | .char d, c => c == d
  | .within members, c => members.any (·.contains c)
  | .outside members, c => !members.any (·.contains c)
  | _, _ => true

/-- Whether a sign stands for any number of characters. -/
def Sign.isAnyText : Sign → Bool
  | .anyText | .anyDirectories => true
  | _ => false

/-- Whether signs stand for a whole name. -/
def covers : List Sign → List Char → Bool
  | [], cs => cs.isEmpty
  | sign :: signs, [] => sign.isAnyText && covers signs []
  | sign :: signs, c :: cs =>
    if sign.isAnyText then covers signs (c :: cs) || covers (sign :: signs) cs
    else sign.accepts c && covers signs cs
termination_by signs cs => signs.length + cs.length

/-- The text that signs spell when each is a plain character. -/
def plain? : List Sign → Option (List Char)
  | [] => some []
  | .char c :: signs => (plain? signs).map (c :: ·)
  | _ :: _ => none

end Pattern

/-- One piece of a pattern. -/
abbrev Piece := List Pattern.Sign

/-- A pattern, piece by piece. -/
structure Pattern where
  /-- Whether it begins at the root. -/
  absolute : Bool
  pieces : List Piece
  /-- Whether only directories match. -/
  directoriesOnly : Bool
  deriving DecidableEq, Repr

namespace Pattern

/-- The pieces of a pattern text, without the empty one behind a slash at the end. -/
def pieceTexts (text : List Char) : List (List Char) :=
  let texts := Path.cut (· == '/') text
  if texts.getLast? = some [] then texts.dropLast else texts

/-- The pattern that a text is. The text as a whole is checked in front of its pieces. -/
def parse (text : String) : Except Fault Pattern := do
  let _ ← read none text.toList
  let absolute := Path.isAbsolute text
  let pieces ← (pieceTexts (if absolute then text.toList.drop 1 else text.toList)).mapM (read none)
  return { absolute, pieces, directoriesOnly := Path.isSlashed text }

/-- Whether a text has a sign that makes it a pattern. -/
def isPattern (text : String) : Bool :=
  text.toList.any fun c => c == '*' || c == '?' || c == '['

/-! ## Finding matches -/

/-- Whether a piece stands for directories one below the other. -/
def isRecursive (piece : Piece) : Bool :=
  piece.contains .anyDirectories

/-- A path and whether it names a directory. -/
structure Found where
  path : String
  isDirectory : Bool
  deriving DecidableEq, Repr

/-- A path holds at most 4095 bytes, so no directory lies this deep. -/
def maxDepth : Nat := 4096

variable {m : Type → Type} [Monad m] (host : Host m)

/-- A path with what it names. -/
def find (path : String) : m Found := do
  return { path, isDirectory := (← host.kind path) == some .directory }

/-- The path of a name in a directory; the current directory is left out of it. -/
def inside (directory : Found) (name : String) : String :=
  if Path.isCurrent directory.path then name else Path.join directory.path name

/-- What lies in a directory, in ascending order of the names. -/
def children (directory : Found) : m (List Found) := do
  (← host.names directory.path).mapM fun name => find host (inside directory name)

/-- What lies below a directory, everything behind the directory that it lies in. -/
def descendants : Nat → Found → m (List Found)
  | 0, _ => return []
  | depth + 1, directory => do
    (← children host directory).flatMapM fun found => do
      if found.isDirectory then return found :: (← descendants depth found) else return [found]

/-- Whether the last name of a path is one that a piece stands for. -/
def hasName (piece : Piece) (found : Found) : Bool :=
  match Path.fileName? found.path with
  | some name => covers piece name.toList
  | none => false

/-- The two names that every directory has, where a piece that begins with a dot stands for them. -/
def dotNames (piece : Piece) : List String :=
  if piece.head? = some (.char '.') then ["..", "."].filter fun name => covers piece name.toList
  else []

/-- The paths below a directory that the pieces of a pattern stand for. -/
def expand : List Piece → Found → m (List Found)
  | [], found => return [found]
  | piece :: pieces, found =>
    match plain? piece with
    | some chars => do
      let name := String.ofList chars
      let next ← find host (inside found name)
      let named ← if name == "." || name == ".." then pure found.isDirectory
        else pure (← host.kind next.path).isSome
      if named then expand pieces next else return []
    | none => do
      if !found.isDirectory then return []
      if isRecursive piece then
        match h : pieces.dropWhile isRecursive with
        | [] => return (← descendants host maxDepth found).filter (·.isDirectory)
        | last :: rest =>
          (← descendants host maxDepth found).flatMapM fun below => do
            have : rest.length < pieces.length := by
              have := (List.dropWhile_suffix isRecursive (l := pieces)).length_le
              rw [h] at this
              exact this
            if hasName last below then expand rest below else return []
      else
        let dots ← (dotNames piece).flatMapM fun name => do
          expand pieces (← find host (Path.join found.path name))
        let others ← (← children host found).flatMapM fun child => do
          if hasName piece child then expand pieces child else return []
        return dots ++ others
termination_by pieces => pieces.length

/-- The paths that a pattern stands for. -/
def paths (pattern : Pattern) : m (List String) := do
  let origin ← find host (if pattern.absolute then "/" else ".")
  let found ← expand host pattern.pieces origin
  return (found.filter fun f => f.isDirectory || !pattern.directoriesOnly).map (·.path)

end Pattern

end ChannelPreset
