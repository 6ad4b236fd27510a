/-!
# The numbers a timeline is made of

Clock readings, lengths and pans are numbers of one type. `Scalar R` names the operations that
placement applies to them, and nothing else, so that every rule about a timeline is written once
for two readings: `Float`, in which the program runs, and `Rat`, in which the same rules are
followed without rounding.
-/

namespace Soundstage

/-- Numbers that can measure seconds and pans. -/
class Scalar (R : Type) extends Add R, Sub R, Mul R, Div R, Neg R, LT R, LE R where
  /-- A count as a number. -/
  ofNat : Nat → R
  /-- Holds of every number that is neither infinite nor undefined. -/
  isFinite : R → Bool
  /-- The greatest count that does not exceed a number that is not negative. -/
  wholePart : R → Nat
  /-- One millionth of a second: lengths up to this are noise. -/
  millionth : R
  /-- Strict order is decidable. -/
  decLt : DecidableLT R
  /-- Order is decidable. -/
  decLe : DecidableLE R

namespace Scalar

variable {R : Type} [Scalar R]

instance : DecidableLT R := decLt
instance : DecidableLE R := decLe

/-- The clock reading at which a program starts. -/
def zero : R := ofNat 0

/-- The greatest pan and the gain of an unchanged channel. -/
def one : R := ofNat 1

/-- A length that can be played: finite and longer than nothing. -/
def IsLength (x : R) : Prop := isFinite x = true ∧ ¬ x ≤ zero

instance (x : R) : Decidable (IsLength x) := inferInstanceAs (Decidable (_ ∧ _))

/-- A pause that can be made: finite and not negative. -/
def IsPause (x : R) : Prop := isFinite x = true ∧ ¬ x < zero

instance (x : R) : Decidable (IsPause x) := inferInstanceAs (Decidable (_ ∧ _))

/-- A stereo position: finite and between hard left and hard right. -/
def IsPan (x : R) : Prop := isFinite x = true ∧ -one ≤ x ∧ x ≤ one

instance (x : R) : Decidable (IsPan x) := inferInstanceAs (Decidable (_ ∧ _ ∧ _))

end Scalar

/-- The double nearest to a count. -/
def countToFloat (n : Nat) : Float :=
  if n < 0x10000000000000000 then n.toUInt64.toFloat else Float.ofNat n

/-- Doubles, with the rounding of each operation. -/
instance : Scalar Float where
  ofNat := countToFloat
  isFinite := Float.isFinite
  wholePart x := x.toUInt64.toNat
  millionth := 0.000001
  decLt := inferInstance
  decLe := inferInstance

/-- Exact fractions: every number is finite and no operation rounds. -/
instance : Scalar Rat where
  ofNat n := (n : Rat)
  isFinite _ := true
  wholePart x := x.floor.toNat
  millionth := mkRat 1 1000000
  decLt := inferInstance
  decLe := inferInstance

end Soundstage
