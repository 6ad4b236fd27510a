import Soundstage.Number.Numeral
import Soundstage.Number.Scalar

/-!
# Numbers in JSON

A `Literal` is the text of a number taken apart. It can be read as a count, if it is written as
one, or as a double. For a double only the leading digits that fit into 64 bits count. They are
scaled by one multiplication or division by a power of ten, so the result can differ from the
nearest double in the last place; numbers beyond all doubles are refused.
-/

namespace Soundstage.Json

/-- A number as it is written. -/
structure Literal where
  negative : Bool
  /-- The digits before the point. -/
  whole : List Char
  /-- The digits after the point, none if there is no point. -/
  fraction : List Char
  /-- The sign and the digits of the exponent. -/
  exponent : Option (Bool × List Char)
  deriving DecidableEq, Repr

namespace Literal

open Numeral (isDigit digitsFrom splitSign)

/-- The digits after a point, at least one, and what follows them. Without a point there are
none. -/
def fraction? : List Char → Option (List Char × List Char)
  | '.' :: rest =>
    let digits := rest.takeWhile isDigit
    if digits.isEmpty then none else some (digits, rest.dropWhile isDigit)
  | rest => some ([], rest)

/-- An exponent up to the end of the text. -/
def exponent? : List Char → Option (Option (Bool × List Char))
  | [] => some none
  | mark :: rest =>
    let (negative, digits) := splitSign rest
    if (mark = 'e' || mark = 'E') && !digits.isEmpty && digits.all isDigit then
      some (some (negative, digits))
    else none

/-- Takes the text of a number apart. The whole part is a zero or does not begin with one. -/
def ofText? (text : List Char) : Option Literal := do
  let negative := text.head? = some '-'
  let text := if negative then text.drop 1 else text
  let whole := text.takeWhile isDigit
  if whole.isEmpty || (whole.head? = some '0' && whole.length ≠ 1) then none
  else
    let (fraction, rest) ← fraction? (text.dropWhile isDigit)
    let exponent ← exponent? rest
    return ⟨negative, whole, fraction, exponent⟩

/-- The number as a count below a bound. A count has no sign, point or exponent. -/
def count? (bound : Nat) (n : Literal) : Option Nat :=
  let value := digitsFrom 0 n.whole
  if !n.negative && n.fraction.isEmpty && n.exponent.isNone && value < bound then some value
  else none

/-- Extends a significand by the leading digits of a run as long as it fits into 64 bits, and counts
the digits that were taken. -/
def fit (significand : Nat) : List Char → Nat × Nat
  | [] => (significand, 0)
  | d :: rest =>
    let next := digitsFrom significand [d]
    if next < 0x10000000000000000 then ((fit next rest).1, (fit next rest).2 + 1)
    else (significand, 0)

/-- The digits that count, as a number, and the power of ten it is scaled by. Whole digits that do
not fit scale it up; after them digits of the fraction may fit again. -/
def parts (n : Literal) : Nat × Int :=
  let (whole, taken) := fit 0 n.whole
  let (significand, places) := fit whole n.fraction
  let exponent : Int := match n.exponent with
    | none => 0
    | some (negative, digits) => if negative then -(digitsFrom 0 digits) else digitsFrom 0 digits
  (significand, (n.whole.length : Int) - taken - places + exponent)

/-- The double nearest to a power of ten. -/
def powerOfTen (n : Nat) : Float := Binary64.nearest false (Nat.pow 10 n) 1

/-- The greatest power of ten that is a double. -/
def greatestPower : Nat := 308

/-- A number scaled by a power of ten, if the result is finite. Two divisions by the greatest power
of ten take every 64-bit number to zero. -/
def scale? (x : Float) (exponent : Int) : Option Float :=
  if 0 ≤ exponent then
    if exponent ≤ greatestPower then
      let scaled := x * powerOfTen exponent.toNat
      if scaled.isFinite then some scaled else none
    else if x == 0 then some x else none
  else if -greatestPower ≤ exponent then some (x / powerOfTen (-exponent).toNat)
  else if -2 * greatestPower ≤ exponent then
    some (x / powerOfTen greatestPower / powerOfTen (-exponent - greatestPower).toNat)
  else some 0

/-- The number as a double. -/
def float? (n : Literal) : Option Float :=
  let (significand, exponent) := n.parts
  (scale? (countToFloat significand) exponent).map fun x => if n.negative then -x else x

end Literal

end Soundstage.Json
