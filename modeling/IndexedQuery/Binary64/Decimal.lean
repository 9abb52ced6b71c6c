import IndexedQuery.Binary64

namespace IndexedQuery.Binary64

/-- A decimal magnitude `digits * 10 ^ exponent`. -/
structure Decimal where
  digits : Nat
  exponent : Int
deriving DecidableEq

/-- Everything is measured in quarters of a unit, so that the midpoints between neighbouring
numbers are integers. -/
def quartersPerOne : Nat := 4 * unitsPerOne

/-- The points from `lower` to `upper` read back as `value`; the two ends, where they are midpoints
of neighbours, do so if the significand is even. -/
structure ReadingInterval where
  lower : Nat
  value : Nat
  upper : Nat
  closed : Bool

/-- The interval of a finite magnitude. Below a power of two the neighbours stand half as far
apart. -/
def readingInterval (x : Binary64) : ReadingInterval :=
  let value := 4 * x.units
  let step := 1 <<< x.exponent
  let below := if x.significand == binade && 0 < x.exponent then step else 2 * step
  { lower := value - below, value, upper := value + 2 * step, closed := x.significand % 2 == 0 }

/-- The multiple of `10 ^ exponent` in the interval that is nearest to the value, the larger of two
equally near ones. Only the two neighbours of the value have to be tried. -/
def ReadingInterval.onGrid? (i : ReadingInterval) (exponent : Int) : Option Decimal :=
  let scale := Nat.pow 10 (-exponent).toNat
  let step := quartersPerOne * Nat.pow 10 exponent.toNat
  let below := i.value * scale / step
  let above := below + 1
  let belowReads := if i.closed then i.lower * scale ≤ below * step
    else i.lower * scale < below * step
  let aboveReads := if i.closed then above * step ≤ i.upper * scale
    else above * step < i.upper * scale
  let nearerBelow := i.value * scale - below * step < above * step - i.value * scale
  if belowReads ∧ (¬ aboveReads ∨ nearerBelow) then some ⟨below, exponent⟩
  else if aboveReads then some ⟨above, exponent⟩
  else none

/-- An exponent whose power of ten exceeds the magnitude: `0.30103` is just above the logarithm of
two to the base ten. -/
def topExponent (x : Binary64) : Int :=
  ((x.units.log2 : Int) - 1073) * 30103 / 100000 + 1

/-- The decimal with the fewest digits that reads back as the finite nonzero `x`. The grids are
tried from the coarsest down; a grid of seventeen digits always has a point in the interval. -/
def shortest (x : Binary64) : Decimal :=
  let interval := x.readingInterval
  let grids := (List.range 20).map fun (n : Nat) => x.topExponent - n
  (grids.findSome? interval.onGrid?).getD ⟨0, 0⟩

/-- Plain positional digits, without an exponent and without a point when there is no fraction. -/
def Decimal.text (d : Decimal) : String :=
  let digits := d.digits.repr.toList
  let places := (-d.exponent).toNat
  if places = 0 then
    .ofList (digits ++ .replicate d.exponent.toNat '0')
  else
    let padded := .replicate (places + 1 - digits.length) '0' ++ digits
    let whole := padded.length - places
    .ofList (padded.take whole ++ '.' :: padded.drop whole)

/-- A NaN is written without its sign, a zero with it. -/
def text (x : Binary64) : String :=
  if x.isNaN then "NaN"
  else
    let magnitude := if x.isInfinite then "inf" else if x.isZero then "0" else x.shortest.text
    if x.isNegative then "-" ++ magnitude else magnitude

end IndexedQuery.Binary64
