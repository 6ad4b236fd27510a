import Soundstage.Number.Rounding

/-!
# Doubles as dyadic fractions

A finite double is a sign and a size `mantissa * 2 ^ exponent`. `Binary64.size?` takes a double
apart into these, and `Binary64.nearest` puts together the double nearest to a quotient of natural
numbers. Both directions are exact integer arithmetic; no operation on doubles is used.
-/

namespace Soundstage.Binary64

/-- The mantissas of normal doubles lie from `2 ^ 52` up to `2 ^ 53`. -/
def mantissaFloor : Nat := 0x10000000000000

/-- The sign bit of a double, which is set in negative ones. -/
def signBit : Nat := 0x8000000000000000

/-- The least exponent of a double. -/
def leastExponent : Int := -1074

/-- The bit pattern of the positive infinity, the first beyond all finite sizes. -/
def infinityBits : Nat := 0x7ff0000000000000

/-- Whether the sign bit is set; this holds of `-0.0` too. -/
def isNegative (x : Float) : Bool :=
  signBit ≤ x.toBits.toNat

/-- The size of a finite double as `mantissa * 2 ^ exponent`, and nothing for the others. -/
def size? (x : Float) : Option (Nat × Int) :=
  let bits := x.toBits.toNat % signBit
  let field := bits / mantissaFloor
  let fraction := bits % mantissaFloor
  if field = 2047 then none
  else if field = 0 then some (fraction, leastExponent)
  else some (mantissaFloor + fraction, (field : Int) - 1075)

/-- The number `mantissa * 2 ^ exponent` as a quotient. -/
def quotient (mantissa : Nat) (exponent : Int) : Nat × Nat :=
  if 0 ≤ exponent then (mantissa * Nat.pow 2 exponent.toNat, 1)
  else (mantissa, Nat.pow 2 (-exponent).toNat)

/-- The quotient `num / den` divided by `2 ^ exponent`. -/
def scaled (num den : Nat) (exponent : Int) : Nat × Nat :=
  if 0 ≤ exponent then (num, den * Nat.pow 2 exponent.toNat)
  else (num * Nat.pow 2 (-exponent).toNat, den)

/-- The exponent of the doubles around `num / den`: the one that brings the quotient's mantissa
into the normal range, unless that lies below the least exponent. -/
def exponentFor (num den : Nat) : Int :=
  let guess : Int := (num.log2 : Int) - den.log2 - 52
  let (n, d) := scaled num den guess
  max leastExponent (if n < mantissaFloor * d then guess - 1 else guess)

/-- The bits of the non-negative double nearest to `num / den`; of two equally near ones the one
with the even mantissa. A mantissa that rounds up to `2 ^ 53` carries into the exponent field, which
is the next power of two. -/
def nearestBits (num den : Nat) : Nat :=
  if num = 0 then 0 else
  let exponent := exponentFor num den
  let (n, d) := scaled num den exponent
  min infinityBits ((exponent - leastExponent).toNat * mantissaFloor + roundDiv .toEven n d)

/-- The double nearest to `num / den`, with the given sign. -/
def nearest (negative : Bool) (num den : Nat) : Float :=
  Float.ofBits (UInt64.ofNat ((if negative then signBit else 0) + nearestBits num den))

/-- The positive infinity, or the negative one. -/
def infinity (negative : Bool) : Float :=
  Float.ofBits (UInt64.ofNat ((if negative then signBit else 0) + infinityBits))

/-- The integer nearest to a number that is not negative, a half going up; infinities give the
greatest 64-bit integer, which bounds all results, and numbers below zero and undefined ones give
zero. -/
def roundToCount (x : Float) : Nat :=
  let greatest := 0xffffffffffffffff
  if x.isNaN || isNegative x then 0
  else match size? x with
    | none => greatest
    | some (mantissa, exponent) =>
      let (n, d) := quotient mantissa exponent
      min greatest (roundDiv .up n d)

end Soundstage.Binary64
