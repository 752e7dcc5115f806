import ChannelPreset.Decimal.Basic
import ChannelPreset.Single.Basic

/-!
# Shortest Text of Numbers

The fewest decimal digits that read back as the same number, in positional notation without an
exponent. The numbers that read back as a given one form an interval around it, whose ends belong
to it when the significand is even. The coarsest decimal grid that meets the interval gives the
digits; of the two grid points next to the number the nearer one wins, and the upper one wins a tie.
-/

namespace ChannelPreset.Single

/-- The decimals that round to one magnitude, in units of `2^-151`. -/
structure ReadBack where
  low : Nat
  value : Nat
  high : Nat
  /-- Whether the two ends round to the magnitude too. -/
  closed : Bool

/-- The interval of a nonzero magnitude: half the distance to each neighbour, where the lower
neighbour of a power of two is nearer. -/
def ReadBack.ofUnits (units : Nat) : ReadBack :=
  let step := Magnitude.spacing units
  let below := if 1 < step ∧ units = 2 ^ 23 * step then step else 2 * step
  { low := 4 * units - below
    value := 4 * units
    high := 4 * units + 2 * step
    closed := units / step % 2 = 0 }

/-- The finest decimal grid looked at has points `10^-45` apart: closer than any two numbers. -/
def finestPlaces : Nat := 45

/-- Whether the point `n / scale` lies in the interval. -/
def ReadBack.contains (interval : ReadBack) (scale n : Nat) : Bool :=
  if interval.closed then
    decide (interval.low * scale ≤ n) && decide (n ≤ interval.high * scale)
  else
    decide (interval.low * scale < n) && decide (n < interval.high * scale)

/-- The grid point `n` of the grid with points `10 ^ (exponent - 45)` apart that stands for the
number, if the interval holds one. -/
def ReadBack.pick? (interval : ReadBack) (exponent : Nat) : Option Nat :=
  let scale := 10 ^ finestPlaces
  let step := 10 ^ exponent * 2 ^ 151
  let down := interval.value * scale / step
  let rest := interval.value * scale % step
  let up := if rest = 0 then down else down + 1
  let downIn := interval.contains scale (down * step)
  let upIn := interval.contains scale (up * step)
  if downIn && (!upIn || decide (2 * rest < step)) then some down
  else if upIn then some up
  else none

/-- The digits of the shortest text and the exponent of their grid, coarsest grid first. -/
def ReadBack.digits (interval : ReadBack) : Nat × Nat :=
  let exponents := (List.range (finestPlaces + 40)).reverse
  (exponents.findSome? fun e => (interval.pick? e).map (·, e)).getD (0, 0)

/-- The shortest text of a number. -/
def toShortest : Single → String
  | .nan => "NaN"
  | .infinite negative => Decimal.sign negative ++ "inf"
  | .finite negative m =>
    if m.units = 0 then Decimal.positional negative 0 0
    else
      let (n, exponent) := (ReadBack.ofUnits m.units).digits
      Decimal.positional negative (finestPlaces - exponent) (n * 10 ^ (exponent - finestPlaces))

end ChannelPreset.Single
