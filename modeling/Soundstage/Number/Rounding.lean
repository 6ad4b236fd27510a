/-!
# Rounding a quotient

The one place where a quotient of natural numbers becomes a natural number. Everything that is
read or written as a decimal number rounds through `Nat.roundDiv`, with the rule for halves given
as data.
-/

namespace Soundstage

/-- What happens to a quotient that lies exactly between two integers. -/
inductive Halves where
  /-- The greater one is taken. -/
  | up
  /-- The even one is taken. -/
  | toEven
  deriving DecidableEq, Repr

/-- Whether a quotient with remainder `r` over `den`, whose whole part is `q`, goes up. -/
def Halves.goesUp (rule : Halves) (q r den : Nat) : Bool :=
  if 2 * r < den then false
  else if den < 2 * r then true
  else match rule with
    | .up => true
    | .toEven => q % 2 == 1

/-- The integer nearest to `num / den`. -/
def roundDiv (rule : Halves) (num den : Nat) : Nat :=
  let q := num / den
  if rule.goesUp q (num % den) den then q + 1 else q

end Soundstage
