/-!
# Hexadecimal Text
-/

namespace ChannelPreset.Hex

/-- The lower-case hexadecimal digits of `n`, with zeros in front up to `width` places. -/
def padded (width n : Nat) : String :=
  let digits := Nat.toDigits 16 n
  String.ofList (List.replicate (width - digits.length) '0' ++ digits)

/-- An offset inside a record: at least four digits behind `0x`. -/
def offset (n : Nat) : String :=
  "0x" ++ padded 4 n

end ChannelPreset.Hex
