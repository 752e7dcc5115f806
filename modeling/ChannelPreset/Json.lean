/-!
# JSON

JSON values and their two printed forms: on one line without spaces, and over several lines with
two spaces of indentation a level. Only what JSON cannot hold is escaped, so every character outside
the control range stands for itself.
-/

namespace ChannelPreset

/-- A JSON value; an object keeps the order of its members. -/
inductive Json where
  | bool (b : Bool)
  | number (n : Int)
  | string (text : String)
  | array (items : List Json)
  | object (members : List (String × Json))

namespace Json

/-- A character inside a string. -/
def escape (c : Char) : List Char :=
  if c = '\"' then ['\\', '\"']
  else if c = '\\' then ['\\', '\\']
  else if c = '\n' then ['\\', 'n']
  else if c = '\r' then ['\\', 'r']
  else if c = '\t' then ['\\', 't']
  else if c.toNat = 8 then ['\\', 'b']
  else if c.toNat = 12 then ['\\', 'f']
  else if c.toNat < 0x20 then ['\\', 'u', '0', '0'] ++ hex c.toNat
  else [c]
where
  /-- Two hexadecimal digits. -/
  hex (n : Nat) : List Char := [Nat.digitChar (n / 16), Nat.digitChar (n % 16)]

/-- A string in quotes. -/
def quote (text : String) : String :=
  String.ofList ('\"' :: text.toList.flatMap escape ++ ['\"'])

/-- How the parts of a value are set: what stands between its brackets and around its items at a
depth, and what stands behind the colon of a member. -/
structure Style where
  /-- In front of each item, and at one level less in front of the closing bracket. -/
  line : Nat → String
  /-- Behind the colon. -/
  gap : String

/-- Everything on one line. -/
def Style.compact : Style :=
  { line := fun _ => "", gap := "" }

/-- Every item on a line of its own. -/
def Style.pretty : Style :=
  { line := fun depth => "\n" ++ String.ofList (List.replicate (2 * depth) ' '), gap := " " }

/-- Items between brackets; without items the brackets stand alone. -/
def Style.enclose (style : Style) (depth : Nat) (opening closing : String)
    (items : List String) : String :=
  if items.isEmpty then opening ++ closing
  else
    opening ++ style.line (depth + 1)
      ++ String.intercalate ("," ++ style.line (depth + 1)) items
      ++ style.line depth ++ closing

mutual

/-- The text of a value at a depth. -/
def renderAt (style : Style) (depth : Nat) : Json → String
  | .bool b => if b then "true" else "false"
  | .number n => toString n
  | .string text => quote text
  | .array items => style.enclose depth "[" "]" (renderItems style (depth + 1) items)
  | .object members =>
    style.enclose depth "\x7b" "\x7d" (renderMembers style (depth + 1) members)

/-- The texts of the items of an array. -/
def renderItems (style : Style) (depth : Nat) : List Json → List String
  | [] => []
  | item :: items => renderAt style depth item :: renderItems style depth items

/-- The texts of the members of an object. -/
def renderMembers (style : Style) (depth : Nat) : List (String × Json) → List String
  | [] => []
  | (key, value) :: members =>
    (quote key ++ ":" ++ style.gap ++ renderAt style depth value)
      :: renderMembers style depth members

end

/-- The text of a value. -/
def render (style : Style) (value : Json) : String :=
  renderAt style 0 value

end Json

end ChannelPreset
