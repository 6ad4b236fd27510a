import Soundstage.Script.Command
import Soundstage.Asset.Key
import Soundstage.Timeline.Basic
import Soundstage.Timeline.Tiling

/-!
# Where clips belong

The timeline of a script, said without running it. The clock reading of a position is a sum over
the commands before it. A voice or a sound is placed at the clock of its own position. A
background track covers the span from the clock of its start to that of its stop, or to the end of
the script; it is placed at the position of its stop, and one that is never stopped comes at the
end.
-/

namespace Soundstage

variable {R : Type} [Scalar R]

/-- What placement has to know of the assets: where each is kept and how long each file plays. -/
structure Clips (R : Type) where
  path : AssetKey → String
  length : String → R

namespace Clips

variable (clips : Clips R)

/-- The clock behind a command, from the clock before it. -/
def clockAfter (clock : R) (line : ScriptLine R) : R :=
  match line.command with
  | .voice _ phrase => clock + clips.length (clips.path ⟨.voice, phrase⟩)
  | .sound _ duration _ | .wait duration => clock + duration
  | .backgroundStart .. | .backgroundStop _ => clock

/-- The clock before the command at a position, and behind the last one. -/
def clockAt (lines : List (ScriptLine R)) (position : Nat) : R :=
  (lines.take position).foldl clips.clockAfter Scalar.zero

/-- The clips of a track that plays between two clock readings. A span within the noise has none. -/
def cover (description : String) (pan start finish : R) : List (Segment R) :=
  let path := clips.path ⟨.sound, description⟩
  let span := finish - start
  if span ≤ Scalar.millionth then []
  else match tileFrom (clips.length path) start span with
    | .ok tiles => tiles.map fun t => ⟨path, t.offset, t.duration, pan⟩
    | .error _ => []

/-- The pan of a start of the given track. -/
def startPan? (description : String) (line : ScriptLine R) : Option R :=
  match line.command with
  | .backgroundStart pan d => if d = description then some pan else none
  | _ => none

/-- Whether a line stops the given track. -/
def isStop (description : String) (line : ScriptLine R) : Bool :=
  match line.command with
  | .backgroundStop d => d = description
  | _ => false

/-- The latest start of a track before a position: where it is, and its pan. -/
def latestStart? (lines : List (ScriptLine R)) (description : String) (position : Nat) :
    Option (Nat × R) :=
  (lines.take position).zipIdx.reverse.findSome? fun (line, i) =>
    (startPan? description line).map fun pan => (i, pan)

/-- What is placed at a position. -/
def placedAt (lines : List (ScriptLine R)) (position : Nat) (line : ScriptLine R) :
    List (Segment R) :=
  let clock := clips.clockAt lines position
  match line.command with
  | .voice pan phrase =>
    let path := clips.path ⟨.voice, phrase⟩
    [⟨path, clock, clips.length path, pan⟩]
  | .sound pan duration description =>
    [⟨clips.path ⟨.sound, description⟩, clock, duration, pan⟩]
  | .backgroundStop description =>
    match latestStart? lines description position with
    | some (start, pan) => clips.cover description pan (clips.clockAt lines start) clock
    | none => []
  | .backgroundStart .. | .wait _ => []

/-- What is placed for a start at a position whose track is never stopped. -/
def placedAtEnd (lines : List (ScriptLine R)) (position : Nat) (line : ScriptLine R) :
    List (Segment R) :=
  match line.command with
  | .backgroundStart pan description =>
    if (lines.drop position).any (isStop description) then []
    else clips.cover description pan (clips.clockAt lines position)
      (clips.clockAt lines lines.length)
  | _ => []

/-- The timeline of a script. -/
def timeline (lines : List (ScriptLine R)) : Timeline R where
  total := clips.clockAt lines lines.length
  segments :=
    lines.zipIdx.flatMap (fun (line, i) => clips.placedAt lines i line)
      ++ lines.zipIdx.flatMap (fun (line, i) => clips.placedAtEnd lines i line)

end Clips

end Soundstage
