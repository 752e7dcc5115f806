import ChannelPreset.Text.Utf8
import ChannelPreset.Token.Tag

/-!
# Reading a Token Stream

A cursor is what is left to read of a byte string, with the count of the bytes in front of it. Each
read gives its result together with the cursor behind it, also when it fails: a read of a tag at the
end, a word that is cut short and a string without its terminator leave the cursor where it was,
while a blob whose length cannot be met leaves it behind the length.
-/

namespace ChannelPreset

/-- Why a read of a token stream failed, with the offset where the failing part begins. -/
inductive StreamError where
  | tooShort (offset needed available : Nat)
  | unterminatedString (offset : Nat)
  | invalidLength (offset : Nat) (length : Int32)
  | unexpectedTag (offset : Nat) (expected found : Tag)
  deriving DecidableEq

/-- The message of an error. -/
def StreamError.message : StreamError → String
  | .tooShort offset needed available =>
    s!"buffer too short at offset {offset}: need {needed} bytes, got {available}"
  | .unterminatedString offset => s!"unterminated string at offset {offset}"
  | .invalidLength offset length => s!"invalid blob length {length.toInt} at offset {offset}"
  | .unexpectedTag offset expected found =>
    s!"expected {expected.name} tag at offset {offset}, found {found.name}"

/-- A place in a byte string. -/
structure Cursor where
  /-- How many bytes lie in front of it. -/
  position : Nat
  /-- The bytes behind it. -/
  rest : Bytes
  deriving DecidableEq

namespace Cursor

/-- The result of a read, and the cursor behind it. -/
abbrev Read (α : Type) := Except StreamError α × Cursor

/-- The cursor in front of a byte string. -/
def start (bs : Bytes) : Cursor := ⟨0, bs⟩

/-- How many bytes are left. -/
def remaining (c : Cursor) : Nat := c.rest.length

/-- The cursor `n` bytes further on. -/
def advance (c : Cursor) (n : Nat) : Cursor := ⟨c.position + n, c.rest.drop n⟩

/-- The next `n` bytes. -/
def take (c : Cursor) (n : Nat) : Read Bytes :=
  if n ≤ c.remaining then (.ok (c.rest.take n), c.advance n)
  else (.error (.tooShort c.position n c.remaining), c)

/-- The next tag; at the end there is none to pass. -/
def tag (c : Cursor) : Tag × Cursor :=
  match c.rest with
  | [] => (.invalid, c)
  | byte :: rest => (.ofByte byte, ⟨c.position + 1, rest⟩)

/-- The next four bytes, as a word. -/
def int32 (c : Cursor) : Read Int32 :=
  match c.take 4 with
  | (.ok bs, c') => (.ok bs.toWord, c')
  | (.error e, c') => (.error e, c')

/-- The text in front of the next zero byte, which is passed too. -/
def string (c : Cursor) : Read String :=
  let text := c.rest.takeWhile (· != 0)
  if text.length < c.remaining then (.ok (Utf8.decode text), c.advance (text.length + 1))
  else (.error (.unterminatedString c.position), c)

/-- A length word and as many bytes as it says. -/
def bytes (c : Cursor) : Read Bytes :=
  match c.int32 with
  | (.ok length, c') =>
    if 0 ≤ length.toInt then c'.take length.toInt.toNat
    else (.error (.invalidLength c.position length), c')
  | (.error e, c') => (.error e, c')

/-- A tag that must announce a string, and the string. -/
def expectString (c : Cursor) : Read String :=
  match c.tag with
  | (.string, c') => c'.string
  | (found, c') => (.error (.unexpectedTag c.position .string found), c')

/-! ## Where a read leaves the cursor -/

@[simp]
theorem remaining_advance (c : Cursor) (n : Nat) :
    (c.advance n).remaining = c.remaining - n := by
  simp [advance, remaining]

theorem remaining_take_le (c : Cursor) (n : Nat) : (c.take n).2.remaining ≤ c.remaining := by
  unfold take
  split <;> simp

theorem remaining_int32_le (c : Cursor) : c.int32.2.remaining ≤ c.remaining := by
  have h := remaining_take_le c 4
  unfold int32
  split <;> simp_all

theorem remaining_string_le (c : Cursor) : c.string.2.remaining ≤ c.remaining := by
  simp only [string]
  split <;> simp

theorem remaining_bytes_le (c : Cursor) : c.bytes.2.remaining ≤ c.remaining := by
  have h := remaining_int32_le c
  unfold bytes
  split
  · rename_i length c' heq
    rw [heq] at h
    split
    · exact Nat.le_trans (remaining_take_le c' _) h
    · exact h
  · simp_all

/-- Passing a tag leaves fewer bytes, unless the stream has ended. -/
theorem remaining_tag_lt (c : Cursor) (h : c.tag.1 ≠ .invalid) :
    c.tag.2.remaining < c.remaining := by
  obtain ⟨position, rest⟩ := c
  cases rest with
  | nil => exact absurd rfl h
  | cons byte rest => simp [tag, remaining]

/-- A tag and a read behind it leave fewer bytes. -/
theorem remaining_lt_of_tag_of_read {α : Type} {c c₁ c₂ : Cursor} {t : Tag} {r : Read α}
    {a : Except StreamError α} (htag : c.tag = (t, c₁)) (ht : t ≠ .invalid) (hr : r = (a, c₂))
    (hle : r.2.remaining ≤ c₁.remaining) : c₂.remaining < c.remaining := by
  have h := c.remaining_tag_lt (by rw [htag]; exact ht)
  rw [htag] at h
  rw [hr] at hle
  exact Nat.lt_of_le_of_lt hle h

end Cursor

end ChannelPreset
