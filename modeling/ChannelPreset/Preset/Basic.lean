import ChannelPreset.Preset.Body
import ChannelPreset.Preset.Header

/-!
# Input Channel Presets

A preset is a text that identifies the format, a header and a body, one behind the other. Bytes
behind the body are no part of it. Encoding never fails and always writes every section.
-/

namespace ChannelPreset

/-- A preset of a console's input channel. -/
structure Preset where
  header : Header
  body : Body

namespace Preset

/-- A new preset. -/
def initial : Preset :=
  { header := .initial, body := .initial }

instance : Inhabited Preset := ⟨initial⟩

/-- The stored form. -/
def encode (p : Preset) : Bytes :=
  (Token.string magic).encode ++ p.header.encode ++ p.body.encode

/-- The text that opens a preset, which must be the one of the format, and the cursor behind it. -/
def opening (bs : Bytes) : Except DecodeError Cursor :=
  match (Cursor.start bs).expectString with
  | (.ok text, c) => if text = magic then .ok c else .error (.badMagic text)
  | (.error e, _) => .error (.stream e)

/-- A preset read from the front of a byte string, and the bytes behind it. -/
def decodeFront (bs : Bytes) : Except DecodeError (Preset × Bytes) := do
  let c ← opening bs
  let (header, n) ← (Header.initial.decode c.rest).mapError (.within .header)
  let rest := c.rest.drop n
  let (body, n) ← (Body.initial.decode rest).mapError (.within .body)
  return ({ header, body }, rest.drop n)

/-- A preset read from a byte string. -/
def decode (bs : Bytes) : Except DecodeError Preset :=
  (decodeFront bs).map (·.1)

/-- The description: the header and every section. -/
def describe (p : Preset) : String :=
  p.header.describe ++ p.body.describe

/-- Equality of presets, where numbers are compared as numbers. -/
def equals (p q : Preset) : Bool :=
  p.header == q.header && p.body.equals q.body

end Preset

end ChannelPreset
