import ChannelPreset.Text.SingleByte
import ChannelPreset.Token.Cursor

/-!
# Tokens

A token is a tag and the value behind it. Writing never fails: a text is cut at its first U+0000,
and a blob is preceded by its length. Reading a token takes the tag and then the value that the tag
announces.
-/

namespace ChannelPreset

/-- A value of a token stream. -/
inductive Token where
  | int32 (value : Int32)
  | tokenCount (count : Int32)
  | string (text : String)
  | bytes (blob : Bytes)
  deriving DecidableEq

namespace Token

/-- The tag that announces a token. -/
def tag : Token → Tag
  | .int32 _ => .int32
  | .tokenCount _ => .tokenCount
  | .string _ => .string
  | .bytes _ => .bytes

/-- The length word of a blob; a length past the range of a word is written as the last word. -/
def lengthWord (blob : Bytes) : Int32 :=
  Int32.ofNat (min blob.length (2 ^ 31 - 1))

/-- The bytes behind the tag. -/
def payload : Token → Bytes
  | .int32 value => .ofWord value
  | .tokenCount count => .ofWord count
  | .string text => (beforeNul text).flatMap Utf8.encodeChar ++ [0]
  | .bytes blob => .ofWord (lengthWord blob) ++ blob

/-- The bytes of a token. -/
def encode (token : Token) : Bytes :=
  token.tag.toByte :: token.payload

/-- The bytes of a sequence of tokens. -/
def encodeAll (tokens : List Token) : Bytes :=
  tokens.flatMap encode

/-- The next token of a stream: its tag, and the value that the tag announces. None at the end, at a
tag that announces nothing, and where the value cannot be read. -/
def read? (c : Cursor) : Option (Token × Cursor) :=
  match c.tag with
  | (.int32, c) => value .int32 c.int32
  | (.tokenCount, c) => value .tokenCount c.int32
  | (.string, c) => value .string c.string
  | (.bytes, c) => value .bytes c.bytes
  | (.unknown _, _) => none
  | (.invalid, _) => none
where
  /-- The token made of the result of a read. -/
  value {α : Type} (make : α → Token) : Cursor.Read α → Option (Token × Cursor)
    | (.ok a, c) => some (make a, c)
    | (.error _, _) => none

end Token

end ChannelPreset
