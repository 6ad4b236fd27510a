import Soundstage.Failure
import Soundstage.Number.Scalar

/-!
# Timelines

A timeline is the outcome of compiling a script: every clip at its place, and the length of the
whole program. The clips stand in the order in which they were placed, not in the order of their
starts.
-/

namespace Soundstage

/-- One clip of a program. -/
structure Segment (R : Type) where
  path : String
  start : R
  duration : R
  pan : R
  deriving DecidableEq

/-- All clips of a program and its length. -/
structure Timeline (R : Type) where
  total : R
  segments : List (Segment R)
  deriving DecidableEq

variable {R : Type} [Scalar R]

/-- The clock reading at which a clip has been played. -/
def Segment.finish (s : Segment R) : R := s.start + s.duration

/-- A clip lies within a program if it starts at or after zero, can be played, and does not end
later than the program by more than the noise. -/
def Segment.Within (s : Segment R) (total : R) : Prop :=
  Scalar.IsPause s.start ∧ Scalar.IsLength s.duration ∧ ¬ total + Scalar.millionth < s.finish

instance (s : Segment R) (total : R) : Decidable (s.Within total) :=
  inferInstanceAs (Decidable (_ ∧ _ ∧ _))

/-- Checks clips, the first of which has the given index, up to the first that does not lie within
the program. -/
def checkSegments (total : R) (index : Nat) : List (Segment R) → Except (Failure R) Unit
  | [] => .ok ()
  | s :: rest =>
    if s.Within total then checkSegments total (index + 1) rest
    else .error (.outsideProgram index s.path s.start s.duration total)

/-- Checks that every clip lies within the program. -/
def Timeline.check (t : Timeline R) : Except (Failure R) Unit := checkSegments t.total 0 t.segments

end Soundstage
