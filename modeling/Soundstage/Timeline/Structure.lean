import Soundstage.Script.Command

/-!
# The structure of a script

Before anything is generated, a script is checked as a whole: the numbers of its commands are
valid, and each background track is started before it is stopped and stopped before it is started
again. `checkStructure` goes through the lines and keeps account of the tracks that play;
`IsWellStructured` says the same of each track by itself.
-/

namespace Soundstage

variable {R : Type} [Scalar R]

/-- The descriptions of the tracks that play after a line, given those before it. -/
def ScriptLine.playingAfter (playing : List String) (line : ScriptLine R) :
    Except (Failure R) (List String) := do
  line.command.check line.line
  match line.command with
  | .backgroundStart _ description =>
    if description ∈ playing then .error (.duplicateTrack line.line description)
    else .ok (description :: playing)
  | .backgroundStop description =>
    if description ∈ playing then .ok (playing.erase description)
    else .error (.unknownTrack line.line description)
  | _ => .ok playing

/-- Checks the lines of a script in order, up to the first one that is refused. -/
def checkStructure (lines : List (ScriptLine R)) : Except (Failure R) Unit := do
  let _ ← lines.foldlM ScriptLine.playingAfter []

/-- Whether a line starts the given track, which is `true`, or stops it. -/
def ScriptLine.mark? (description : String) (line : ScriptLine R) : Option Bool :=
  match line.command with
  | .backgroundStart _ d => if d = description then some true else none
  | .backgroundStop d => if d = description then some false else none
  | _ => none

/-- The starts and stops of a track in the order of the script. -/
def trackMarks (description : String) (lines : List (ScriptLine R)) : List Bool :=
  lines.filterMap (ScriptLine.mark? description)

/-- Starts at the even positions and stops at the odd ones. -/
def Alternate (marks : List Bool) : Prop :=
  ∀ i start, marks[i]? = some start → (start = true ↔ i % 2 = 0)

/-- All commands are valid, and the starts and stops of each track alternate. -/
def IsWellStructured (lines : List (ScriptLine R)) : Prop :=
  (∀ line ∈ lines, line.command.IsValid) ∧ ∀ description, Alternate (trackMarks description lines)

end Soundstage
