import ChannelPreset.Preset.Basic

/-!
# The Parts of an Input

An input is accepted when its opening, its header and its body are read one behind the other
(`Preset.TakesFront`), and the bytes that the three take together are the ones the preset is read
from (`Preset.decode_eq_ok_iff`).
-/

namespace ChannelPreset.Preset

/-- A preset is read from the first `n` bytes of an input: its opening, its header and its body take
them, one behind the other. -/
def TakesFront (bs : Bytes) (p : Preset) (n : Nat) : Prop :=
  ∃ c n₁ n₂, opening bs = .ok c ∧ Header.initial.decode c.rest = .ok (p.header, n₁) ∧
    Body.initial.decode (c.rest.drop n₁) = .ok (p.body, n₂) ∧ n = c.position + n₁ + n₂

variable {bs : Bytes}

theorem ok_bind {ε α β : Type} (a : α) (f : α → Except ε β) :
    ((.ok a : Except ε α) >>= f) = f a := rfl

theorem decode_of_opening_error {e : DecodeError} (h : opening bs = .error e) :
    decode bs = .error e := by
  rw [decode, decodeFront, h]
  rfl

theorem decode_of_header_error {c : Cursor} {e : DecodeError} (hopening : opening bs = .ok c)
    (h : Header.initial.decode c.rest = .error e) : decode bs = .error (.within .header e) := by
  unfold decode decodeFront
  rw [hopening, ok_bind, h]
  rfl

theorem decode_of_body {c : Cursor} {header : Header} {n : Nat} (hopening : opening bs = .ok c)
    (hheader : Header.initial.decode c.rest = .ok (header, n)) :
    decode bs = match Body.initial.decode (c.rest.drop n) with
      | .ok (body, _) => .ok { header, body }
      | .error e => .error (.within .body e) := by
  unfold decode decodeFront
  rw [hopening, ok_bind, hheader]
  change Except.map _ (Except.mapError _ (Body.initial.decode (c.rest.drop n)) >>= _) = _
  cases Body.initial.decode (c.rest.drop n) <;> rfl

/-- What is decoded is read from some number of bytes, and only that is decoded. -/
theorem decode_eq_ok_iff {p : Preset} : decode bs = .ok p ↔ ∃ n, TakesFront bs p n := by
  constructor
  · intro h
    cases hopening : opening bs with
    | error e =>
      rw [decode_of_opening_error hopening] at h
      cases h
    | ok c =>
      cases hheader : Header.initial.decode c.rest with
      | error e =>
        rw [decode_of_header_error hopening hheader] at h
        cases h
      | ok next =>
        obtain ⟨header, n₁⟩ := next
        rw [decode_of_body hopening hheader] at h
        cases hbody : Body.initial.decode (c.rest.drop n₁) with
        | error e =>
          rw [hbody] at h
          cases h
        | ok next =>
          obtain ⟨body, n₂⟩ := next
          rw [hbody] at h
          cases h
          exact ⟨_, c, n₁, n₂, hopening, hheader, hbody, rfl⟩
  · rintro ⟨n, c, n₁, n₂, hopening, hheader, hbody, -⟩
    rw [decode_of_body hopening hheader, hbody]

/-- An input with neither a pair nor a section. -/
def shortest : Bytes :=
  (Token.string magic).encode ++ (Token.tokenCount 0).encode ++ (Token.tokenCount 0).encode

end ChannelPreset.Preset
