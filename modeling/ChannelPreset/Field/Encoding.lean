import ChannelPreset.Decimal.Fixed
import ChannelPreset.Decimal.Shortest
import ChannelPreset.Text.Hex
import ChannelPreset.Text.Quoted
import ChannelPreset.Text.SingleByte

/-!
# Field Encodings

The seven ways a value of a record is stored. An encoding fixes the type of its values, how a value
is read at an offset, which bytes it is written as, and how it is shown.

Fixed-point numbers are stored as the word nearest to the value times a divisor. A delay is stored
in samples at 96 kHz and counted in whole milliseconds; both directions cut off what is left over.
-/

namespace ChannelPreset

/-- The shape of an equalizer band. -/
inductive EqType where
  | shelf
  | curve
  deriving DecidableEq, Repr

/-- The place of the equalizer: before or after the dynamics. -/
inductive EqDyn where
  | preDyn
  | postDyn
  deriving DecidableEq, Repr

/-- A band that is stored as true is a curve. -/
def EqType.ofBool (b : Bool) : EqType := if b then .curve else .shelf

def EqType.toBool : EqType → Bool
  | .shelf => false
  | .curve => true

def EqType.name : EqType → String
  | .shelf => "Shelf"
  | .curve => "Curve"

/-- An order that is stored as true is after the dynamics. -/
def EqDyn.ofBool (b : Bool) : EqDyn := if b then .postDyn else .preDyn

def EqDyn.toBool : EqDyn → Bool
  | .preDyn => false
  | .postDyn => true

def EqDyn.name : EqDyn → String
  | .preDyn => "PreDyn"
  | .postDyn => "PostDyn"

@[simp]
theorem EqType.ofBool_toBool (t : EqType) : ofBool t.toBool = t := by cases t <;> rfl

@[simp]
theorem EqType.toBool_ofBool (b : Bool) : (ofBool b).toBool = b := by cases b <;> rfl

@[simp]
theorem EqDyn.ofBool_toBool (t : EqDyn) : ofBool t.toBool = t := by cases t <;> rfl

@[simp]
theorem EqDyn.toBool_ofBool (b : Bool) : (ofBool b).toBool = b := by cases b <;> rfl

/-- Why a field could not be read from a record. -/
inductive FieldError where
  | outOfRange (offset width length : Nat)
  | unterminatedString (offset : Nat)
  deriving DecidableEq

/-- The message of an error. -/
def FieldError.message : FieldError → String
  | .outOfRange offset width length =>
    s!"read of {width} bytes at offset {Hex.offset offset} exceeds {length}-byte buffer"
  | .unterminatedString offset => s!"unterminated string at offset {Hex.offset offset}"

/-! ## Stored forms of numbers and switches -/

/-- The number that a word stands for under a divisor. -/
def Single.ofScaledWord (divisor word : Int32) : Single :=
  ofInt word.toInt / ofInt divisor.toInt

/-- The word stored for a number under a divisor. -/
def Single.toScaledWord (divisor : Int32) (x : Single) : Int32 :=
  (x * ofInt divisor.toInt).roundToWord

/-- The samples in a millisecond. -/
def samplesPerMillisecond : Int := 96

/-- The whole milliseconds in a count of samples. -/
def Single.ofDelayWord (word : Int32) : Single :=
  ofInt (word.toInt.tdiv samplesPerMillisecond)

/-- The count of samples stored for a delay. -/
def Single.toDelayWord (x : Single) : Int32 :=
  saturate (x.truncateToWord.toInt * samplesPerMillisecond)

/-- A switch is on when its byte is not zero. -/
def Bytes.toBool (bs : Bytes) : Bool :=
  bs.any (· != 0)

/-- The byte stored for a switch. -/
def Bytes.ofBool (b : Bool) : Bytes :=
  [if b then 1 else 0]

/-! ## Encodings -/

/-- How a value is stored. -/
inductive Encoding where
  /-- One byte, any value but zero standing for true. -/
  | bool
  /-- A word. -/
  | int32
  /-- A number, stored as the word nearest to the number times the divisor. -/
  | scaled (divisor : Int32)
  /-- Whole milliseconds, stored in samples. -/
  | delay
  /-- An equalizer shape, stored as a switch. -/
  | eqType
  /-- An equalizer place, stored as a switch. -/
  | eqDyn
  /-- Single-byte text up to a zero byte. -/
  | text
  deriving DecidableEq

namespace Encoding

/-- The values of an encoding. -/
abbrev Value : Encoding → Type
  | .bool => Bool
  | .int32 => Int32
  | .scaled _ => Single
  | .delay => Single
  | .eqType => EqType
  | .eqDyn => EqDyn
  | .text => String

/-- A number in tenths. -/
def tenths : Encoding := .scaled 10

/-- A number in hundredths. -/
def hundredths : Encoding := .scaled 100

/-- The value that a new field holds. -/
def initial : (e : Encoding) → e.Value
  | .bool => false
  | .int32 => 0
  | .scaled _ => .zero
  | .delay => .zero
  | .eqType => .shelf
  | .eqDyn => .preDyn
  | .text => ""

/-- The value that stands for stored zeros, which is also what a failed read gives. A divisor of
zero makes it no number, and a negative one makes it a negative zero. -/
def zero : (e : Encoding) → e.Value
  | .bool => false
  | .int32 => 0
  | .scaled divisor => .ofScaledWord divisor 0
  | .delay => .ofDelayWord 0
  | .eqType => .ofBool false
  | .eqDyn => .ofBool false
  | .text => ""

/-- The `width` bytes of a record at an offset. -/
def fixed (record : Bytes) (offset width : Nat) : Except FieldError Bytes :=
  match record.slice? offset width with
  | some bs => .ok bs
  | none => .error (.outOfRange offset width record.length)

/-- The text of a record at an offset, which must end inside the record. -/
def terminated (record : Bytes) (offset : Nat) : Except FieldError String :=
  if offset ≤ record.length then
    let tail := record.drop offset
    let text := tail.takeWhile (· != 0)
    if text.length < tail.length then .ok (SingleByte.decode text)
    else .error (.unterminatedString offset)
  else .error (.outOfRange offset 1 record.length)

/-- The value stored in a record at an offset. -/
def read (record : Bytes) (offset : Nat) : (e : Encoding) → Except FieldError e.Value
  | .bool => (fixed record offset 1).map Bytes.toBool
  | .int32 => (fixed record offset 4).map Bytes.toWord
  | .scaled divisor => (fixed record offset 4).map (.ofScaledWord divisor ·.toWord)
  | .delay => (fixed record offset 4).map (.ofDelayWord ·.toWord)
  | .eqType => (fixed record offset 1).map (.ofBool ·.toBool)
  | .eqDyn => (fixed record offset 1).map (.ofBool ·.toBool)
  | .text => terminated record offset

/-- The bytes that a value is stored as. -/
def encode : (e : Encoding) → e.Value → Bytes
  | .bool, b => .ofBool b
  | .int32, word => .ofWord word
  | .scaled divisor, x => .ofWord (x.toScaledWord divisor)
  | .delay, x => .ofWord x.toDelayWord
  | .eqType, t => .ofBool t.toBool
  | .eqDyn, t => .ofBool t.toBool
  | .text, t => SingleByte.encode t

/-- The decimal places that show every multiple of one part in `divisor`, for a divisor that is a
power of ten: one less than its digits. A divisor below one counts as one. -/
def places (divisor : Int32) : Nat :=
  (Nat.toDigits 10 (max 1 divisor.toInt.toNat)).length - 1

/-- How a value is shown. -/
def render : (e : Encoding) → e.Value → String
  | .bool, b => if b then "true" else "false"
  | .int32, word => toString word.toInt
  | .scaled divisor, x => x.toFixed (places divisor)
  | .delay, x => x.toShortest ++ " ms"
  | .eqType, t => t.name
  | .eqDyn, t => t.name
  | .text, t => Quoted.encode t

/-- Equality of values, where numbers are compared as numbers. -/
def equals : (e : Encoding) → e.Value → e.Value → Bool
  | .bool, a, b => a == b
  | .int32, a, b => a == b
  | .scaled _, a, b => a.equals b
  | .delay, a, b => a.equals b
  | .eqType, a, b => a == b
  | .eqDyn, a, b => a == b
  | .text, a, b => a == b

end Encoding

end ChannelPreset
