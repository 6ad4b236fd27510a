import Soundstage.Number.Shortest

/-!
# How numbers are written

A `Style` says how the shortest decimal of a double is laid out. Three styles are in use: `plain`
in messages, `saved` in saved values and `inspected` in descriptions of settings. `fixed` writes a
double with a given number of places instead, rounding its exact value.
-/

namespace Soundstage

/-- The layout of a decimal number. -/
structure Style where
  /-- Which of two equally near decimals is taken. -/
  halves : Halves
  /-- What follows an integer written without an exponent. -/
  wholeSuffix : String
  /-- The powers of ten of the first digit for which no exponent is written; `none` for all. -/
  positional : Option (Int × Int)
  /-- The sign of a positive exponent. -/
  exponentPlus : String

namespace Style

/-- Never an exponent, and integers without a point. -/
def plain : Style := ⟨.up, "", none, ""⟩

/-- An exponent below `10 ^ -5` and from `10 ^ 16` on, and integers with `.0`. -/
def saved : Style := ⟨.toEven, ".0", some (-5, 15), "+"⟩

/-- An exponent below `10 ^ -4` and from `10 ^ 16` on, with no sign if it is positive, and integers
with `.0`. -/
def inspected : Style := ⟨.up, ".0", some (-4, 15), ""⟩

/-- Whether a number whose first digit has the given power of ten is written without exponent. -/
def isPositional (style : Style) (power : Int) : Bool :=
  match style.positional with
  | none => true
  | some (low, high) => low ≤ power && power ≤ high

/-- Digits with the point after the first `point` of them, zeros filling the gaps. -/
def positionalText (style : Style) (digits : List Char) (point : Int) : String :=
  if point ≤ 0 then
    "0." ++ String.ofList (List.replicate (-point).toNat '0' ++ digits)
  else if (digits.length : Int) ≤ point then
    String.ofList (digits ++ List.replicate (point.toNat - digits.length) '0') ++ style.wholeSuffix
  else
    String.ofList (digits.take point.toNat) ++ "." ++ String.ofList (digits.drop point.toNat)

/-- Digits with the point after the first one, and an exponent. -/
def exponentText (style : Style) (digits : List Char) (power : Int) : String :=
  let fraction := digits.drop 1
  String.ofList (digits.take 1)
    ++ (if fraction.isEmpty then "" else "." ++ String.ofList fraction)
    ++ "e" ++ (if power < 0 then "-" else style.exponentPlus)
    ++ String.ofList (Nat.toDigits 10 power.natAbs)

/-- A positive decimal number, or zero. -/
def decimalText (style : Style) (d : Decimal) : String :=
  if d.digits = 0 then "0" ++ style.wholeSuffix else
  let digits := Nat.toDigits 10 d.digits
  let point : Int := digits.length + d.exponent
  if style.isPositional (point - 1) then style.positionalText digits point
  else style.exponentText digits (point - 1)

/-- The sign that precedes the digits of a number. -/
def signText (x : Float) : String := if Binary64.isNegative x then "-" else ""

/-- A double in the given style. -/
def text (style : Style) (x : Float) : String :=
  if x.isNaN then "NaN" else
  signText x ++ match Binary64.size? x with
    | none => "inf"
    | some (mantissa, exponent) => style.decimalText (shortest style.halves mantissa exponent)

/-- A count of units of `10 ^ -places` as a decimal with that many places. -/
def placesText (places units : Nat) : String :=
  let digits := Nat.toDigits 10 units
  let padded := List.replicate (places + 1 - digits.length) '0' ++ digits
  let point := padded.length - places
  if places = 0 then String.ofList padded
  else String.ofList (padded.take point) ++ "." ++ String.ofList (padded.drop point)

/-- The size of a double in units of `10 ^ -places`, rounded; a half goes to the even neighbour.
Infinities and undefined numbers have none. -/
def units? (places : Nat) (x : Float) : Option Nat :=
  (Binary64.size? x).map fun (mantissa, exponent) =>
    let (num, den) := Binary64.quotient mantissa exponent
    roundDiv .toEven (num * Nat.pow 10 places) den

/-- A double with exactly `places` digits after the point. -/
def fixed (places : Nat) (x : Float) : String :=
  if x.isNaN then "NaN" else
  signText x ++ match units? places x with
    | none => "inf"
    | some units => placesText places units

end Style

end Soundstage
