import ChannelPreset.Power

/-!
# Decimal Text

Positional decimal notation of a signed number that is given by its digits: a natural number and
the count of those of its digits that stand behind the point.
-/

namespace ChannelPreset.Decimal

/-- The decimal digits of `n`, with zeros in front up to `width` places. -/
def padded (width n : Nat) : String :=
  let digits := toString n
  String.ofList (List.replicate (width - digits.length) '0') ++ digits

/-- The sign in front of a number: a minus or nothing. -/
def sign (negative : Bool) : String :=
  if negative then "-" else ""

/-- `n / 10 ^ places` with exactly `places` digits behind the point, and no point when there are
none. -/
def positional (negative : Bool) (places n : Nat) : String :=
  let whole := sign negative ++ toString (n / 10 ^ places)
  if places = 0 then whole else whole ++ "." ++ padded places (n % 10 ^ places)

end ChannelPreset.Decimal
