import ChannelPreset.Text.Extending
import ChannelPreset.Text.Unprintable

/-!
# Quoted Text

A text between double quotes on one line. Quotes and backslashes take a backslash in front, four
control characters have a letter of their own, and every other character that does not print on its
own is written by its code point.
-/

namespace ChannelPreset.Quoted

/-- A character written by its code point, in lower-case hexadecimal. -/
def codePoint (c : Char) : List Char :=
  ['\\', 'u', Char.ofNat 0x7b] ++ Nat.toDigits 16 c.toNat ++ [Char.ofNat 0x7d]

/-- A character inside quotes. -/
def encodeChar (c : Char) : List Char :=
  if c = '\"' then ['\\', '\"']
  else if c = '\\' then ['\\', '\\']
  else if c = Char.ofNat 0 then ['\\', '0']
  else if c = '\t' then ['\\', 't']
  else if c = '\r' then ['\\', 'r']
  else if c = '\n' then ['\\', 'n']
  else if Extending.contains c || Unprintable.contains c then codePoint c
  else [c]

/-- A text in quotes. -/
def encode (text : String) : String :=
  String.ofList ('\"' :: text.toList.flatMap encodeChar ++ ['\"'])

end ChannelPreset.Quoted
