import Soundstage.Failure
import Soundstage.Number.Scalar

/-!
# Commands

A script is a list of commands, each on its own line. Voices and sounds are played one after the
other; background tracks loop beside them from a start to a stop.
-/

namespace Soundstage

/-- One instruction of a script. -/
inductive Command (R : Type) where
  /-- Speaks a phrase; the clock moves on by the spoken length. -/
  | voice (pan : R) (phrase : String)
  /-- Plays a sound for a given length; the clock moves on by it. -/
  | sound (pan duration : R) (description : String)
  /-- Starts to loop a sound. -/
  | backgroundStart (pan : R) (description : String)
  /-- Stops looping a sound. -/
  | backgroundStop (description : String)
  /-- Moves the clock on in silence. -/
  | wait (duration : R)
  deriving DecidableEq

/-- A command and the line it stands on. -/
structure ScriptLine (R : Type) where
  line : Nat
  command : Command R
  deriving DecidableEq

namespace Command

variable {R : Type} [Scalar R]

/-- Refuses a pan outside of the stereo field. -/
def checkPan (line : Nat) (pan : R) : Except (Failure R) Unit :=
  if Scalar.IsPan pan then .ok () else .error (.invalidPan line pan)

/-- Checks the numbers of a command: pans lie in the stereo field, sounds have a length that can be
played, pauses are finite and not negative. -/
def check (line : Nat) : Command R → Except (Failure R) Unit
  | voice pan _ | backgroundStart pan _ => checkPan line pan
  | sound pan duration _ => do
    checkPan line pan
    if Scalar.IsLength duration then .ok () else .error (.invalidDuration line duration)
  | backgroundStop _ => .ok ()
  | wait duration =>
    if Scalar.IsPause duration then .ok () else .error (.invalidDuration line duration)

/-- The numbers of a command are valid. -/
def IsValid : Command R → Prop
  | voice pan _ | backgroundStart pan _ => Scalar.IsPan pan
  | sound pan duration _ => Scalar.IsPan pan ∧ Scalar.IsLength duration
  | backgroundStop _ => True
  | wait duration => Scalar.IsPause duration

instance : (c : Command R) → Decidable c.IsValid
  | voice pan _ | backgroundStart pan _ => inferInstanceAs (Decidable (Scalar.IsPan pan))
  | sound pan duration _ =>
    inferInstanceAs (Decidable (Scalar.IsPan pan ∧ Scalar.IsLength duration))
  | backgroundStop _ => inferInstanceAs (Decidable True)
  | wait duration => inferInstanceAs (Decidable (Scalar.IsPause duration))

/-- The check accepts exactly the commands whose numbers are valid. -/
theorem check_eq_ok_iff (line : Nat) (c : Command R) : c.check line = .ok () ↔ c.IsValid := by
  cases c with
  | voice pan _ | backgroundStart pan _ =>
    by_cases h : Scalar.IsPan pan <;> simp [check, checkPan, IsValid, h]
  | sound pan duration _ =>
    by_cases h : Scalar.IsPan pan
    · by_cases h' : Scalar.IsLength duration <;>
        simp [check, checkPan, IsValid, h, h', bind, Except.bind]
    · simp [check, checkPan, IsValid, h, bind, Except.bind]
  | backgroundStop _ => simp [check, IsValid]
  | wait duration => by_cases h : Scalar.IsPause duration <;> simp [check, IsValid, h]

/-- The text of a command, where it has one. -/
def text? : Command R → Option String
  | voice _ text | sound _ _ text | backgroundStart _ text | backgroundStop text => some text
  | wait _ => none

/-- Whether a command plays a clip at the clock. -/
def isForeground : Command R → Bool
  | voice .. | sound .. => true
  | _ => false

end Command

end Soundstage
