import ChannelPreset.Decimal.Basic
import ChannelPreset.Single.Basic

/-!
# Fixed-Point Text of Numbers

A number with a given count of decimal places: its exact value is rounded once to that many places,
an exact tie to the even digit. The sign stays in front of a zero.
-/

namespace ChannelPreset.Single

/-- The text of a number with `places` decimal places. -/
def toFixed (places : Nat) : Single → String
  | .nan => "NaN"
  | .infinite negative => Decimal.sign negative ++ "inf"
  | .finite negative m =>
    Decimal.positional negative places
      (Rounding.halfEven (m.units * 10 ^ places) Magnitude.one)

end ChannelPreset.Single
