import Soundstage.Number.Shortest

/-!
# Reading numerals

Two grammars of numerals share one value type. `Numeral.ofPlain?` takes a sign, digits and a point
and nothing else; it is the number of a script. `Numeral.readFloat?` also takes an exponent and the
names of the numbers that no digits can write; it is the number that tools report. The value of a
numeral is the double nearest to it.
-/

namespace Soundstage

/-- The number `± digits * 10 ^ scale`. -/
structure Numeral where
  negative : Bool
  digits : Nat
  scale : Int
  deriving DecidableEq, Repr

namespace Numeral

/-- The value of a run of decimal digits that follows the digits of `n`. -/
def digitsFrom (n : Nat) (ds : List Char) : Nat :=
  ds.foldl (fun n d => 10 * n + (d.toNat - 48)) n

/-- A decimal digit. -/
def isDigit (c : Char) : Bool := '0' ≤ c && c ≤ '9'

/-- A leading sign, if there is one, and what follows it. -/
def splitSign : List Char → Bool × List Char
  | '-' :: rest => (true, rest)
  | '+' :: rest => (false, rest)
  | text => (false, text)

/-- Digits, a point and more digits with at least one digit in all, and what follows them. A point
without digits after it belongs to the numeral. -/
def unsigned? (text : List Char) : Option (Nat × Int × List Char) :=
  let whole := text.takeWhile isDigit
  match text.dropWhile isDigit with
  | '.' :: rest =>
    let fraction := rest.takeWhile isDigit
    if whole.isEmpty && fraction.isEmpty then none
    else some (digitsFrom (digitsFrom 0 whole) fraction, -(fraction.length : Int),
      rest.dropWhile isDigit)
  | rest => if whole.isEmpty then none else some (digitsFrom 0 whole, 0, rest)

/-- An exponent that ends the text; no text is the exponent zero. -/
def exponent? : List Char → Option Int
  | [] => some 0
  | mark :: rest =>
    if mark = 'e' || mark = 'E' then
      let (negative, ds) := splitSign rest
      if ds.isEmpty || !ds.all isDigit then none
      else some (if negative then -(digitsFrom 0 ds : Int) else digitsFrom 0 ds)
    else none

/-- A sign, digits and a point, with at least one digit and nothing else. -/
def ofPlain? (text : List Char) : Option Numeral :=
  let (negative, rest) := splitSign text
  match unsigned? rest with
  | some (digits, scale, []) => some ⟨negative, digits, scale⟩
  | _ => none

/-- The same with an exponent after it. -/
def ofScientific? (text : List Char) : Option Numeral :=
  let (negative, rest) := splitSign text
  match unsigned? rest with
  | some (digits, scale, rest) => (exponent? rest).map fun e => ⟨negative, digits, scale + e⟩
  | none => none

/-- The double nearest to the numeral. Beyond 310 digits before the point every numeral is infinite,
and with 330 zeros after it every numeral vanishes. -/
def toFloat (n : Numeral) : Float :=
  let top : Int := Decimal.length n.digits + n.scale
  if n.digits = 0 ∨ top < -330 then Binary64.nearest n.negative 0 1
  else if 310 < top then Binary64.infinity n.negative
  else Binary64.nearest n.negative (n.digits * Nat.pow 10 n.scale.toNat)
    (Nat.pow 10 (-n.scale).toNat)

/-- Reads a double as a numeral with an optional exponent, or as one of the names of infinity and
of the undefined number, in any case and with an optional sign. -/
def readFloat? (text : List Char) : Option Float :=
  let (negative, rest) := splitSign text
  let name := String.ofList (rest.map Char.toLower)
  if name = "inf" || name = "infinity" then some (Binary64.infinity negative)
  else if name = "nan" then some (Binary64.infinity false - Binary64.infinity false)
  else (ofScientific? text).map toFloat

end Numeral

end Soundstage
