import Soundstage.Number.Binary64

/-!
# The shortest decimal that reads back

`shortest` finds the decimal number with the fewest digits among those that round to a given
double; among equally short ones it takes the one nearest to the double. The search tries one,
two, … seventeen digits: a decimal with that many digits that rounds to the double exists exactly
if one of the double's two neighbours on that grid does, so two candidates per count are enough.
-/

namespace Soundstage

/-- The number `digits * 10 ^ exponent`. -/
structure Decimal where
  digits : Nat
  exponent : Int
  deriving DecidableEq, Repr

namespace Decimal

/-- How many decimal digits a number is written with. -/
def length (n : Nat) : Nat := (Nat.toDigits 10 n).length

/-- Removes trailing zeros by moving them into the exponent; `fuel` bounds their count. -/
def trimZeros : Nat → Decimal → Decimal
  | 0, d => d
  | fuel + 1, d =>
    if d.digits ≠ 0 ∧ d.digits % 10 = 0 then trimZeros fuel ⟨d.digits / 10, d.exponent + 1⟩ else d

/-- The number of digits before the decimal point of `num / den`, for `num` positive: the least `k`
with `num / den < 10 ^ k`. It is zero or less for numbers below one tenth. -/
def magnitude (num den : Nat) : Int :=
  if den ≤ num then length (num / den)
  else
    let zeros := length (den / num) - 1
    if num * Nat.pow 10 zeros = den then 1 - (zeros : Int) else -(zeros : Int)

end Decimal

open Binary64

/-- The numbers that round to one double, as an interval over a common denominator. -/
structure RoundingInterval where
  low : Nat
  value : Nat
  high : Nat
  den : Nat
  /-- Whether the end points belong to it, which they do for even mantissas. -/
  closed : Bool

/-- The interval around `mantissa * 2 ^ exponent`. The gap below a power of two is half as wide as
the one above it. -/
def RoundingInterval.around (mantissa : Nat) (exponent : Int) : RoundingInterval :=
  let (unit, den) := quotient 1 (exponent - 2)
  let narrow := mantissa = mantissaFloor ∧ leastExponent < exponent
  { low := (4 * mantissa - if narrow then 1 else 2) * unit
    value := 4 * mantissa * unit
    high := (4 * mantissa + 2) * unit
    den := den
    closed := mantissa % 2 = 0 }

/-- Whether the interval holds the number `digits * 10 ^ exponent`. -/
def RoundingInterval.contains (i : RoundingInterval) (d : Decimal) : Bool :=
  let n := d.digits * Nat.pow 10 d.exponent.toNat * i.den
  let s := Nat.pow 10 (-d.exponent).toNat
  if i.closed then i.low * s ≤ n ∧ n ≤ i.high * s else i.low * s < n ∧ n < i.high * s

/-- The decimal in the interval on the grid of multiples of `10 ^ exponent` that is nearest to the
interval's value, if there is one; `halves` decides between two equally near ones. -/
def RoundingInterval.onGrid? (i : RoundingInterval) (halves : Halves) (exponent : Int) :
    Option Decimal :=
  let num := i.value * Nat.pow 10 (-exponent).toNat
  let den := i.den * Nat.pow 10 exponent.toNat
  let below : Decimal := ⟨num / den, exponent⟩
  let above : Decimal := ⟨num / den + 1, exponent⟩
  match i.contains below && decide (0 < below.digits), i.contains above with
  | true, true => some ⟨roundDiv halves num den, exponent⟩
  | true, false => some below
  | false, true => some above
  | false, false => none

/-- Tries the grids of `17 - fuel`, … digits in turn. -/
def RoundingInterval.search (i : RoundingInterval) (halves : Halves) (magnitude : Int) :
    Nat → Decimal
  | 0 => ⟨0, 0⟩
  | fuel + 1 =>
    match i.onGrid? halves (magnitude - (17 - fuel : Nat)) with
    | some d => d
    | none => i.search halves magnitude fuel

/-- The shortest decimal that rounds to `mantissa * 2 ^ exponent`, for a positive mantissa. -/
def shortest (halves : Halves) (mantissa : Nat) (exponent : Int) : Decimal :=
  if mantissa = 0 then ⟨0, 0⟩ else
  let i := RoundingInterval.around mantissa exponent
  (i.search halves (Decimal.magnitude i.value i.den) 17).trimZeros 17

end Soundstage
