import Soundstage.Number.Scalar

/-!
# Panning

A pan turns down the channel on the far side and leaves the near one as it is.
-/

namespace Soundstage

/-- How much of each channel remains. -/
structure Gains (R : Type) where
  left : R
  right : R
  deriving DecidableEq

variable {R : Type} [Scalar R]

/-- A number brought into the stereo field. Numbers that are not finite stand for the middle. -/
def clampPan (pan : R) : R :=
  if Scalar.isFinite pan then
    if pan < -Scalar.one then -Scalar.one else if Scalar.one < pan then Scalar.one else pan
  else Scalar.zero

/-- A number, or zero in place of negative and undefined ones. -/
def notNegative (x : R) : R := if Scalar.zero < x then x else Scalar.zero

/-- The gains at a pan. -/
def gains (pan : R) : Gains R :=
  let p := clampPan pan
  ⟨Scalar.one - notNegative p, Scalar.one - notNegative (-p)⟩

end Soundstage
