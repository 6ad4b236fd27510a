import Soundstage.Timeline.Placement
import Soundstage.Timeline.Session

/-!
# Which calls a script takes

The calls to collaborators of a script, said without running it. An asset is generated where the
script first mentions it, unless its file is there at the beginning. The length of a voice is
measured each time it is spoken, that of a loop where a track of it first ends after more than the
noise, and that of a sound that is played once is never measured.
-/

namespace Soundstage

variable {R : Type} [Scalar R]

/-- The asset of a line. -/
def ScriptLine.key? (line : ScriptLine R) : Option AssetKey :=
  match line.command with
  | .voice _ phrase => some ⟨.voice, phrase⟩
  | .sound _ _ description | .backgroundStart _ description => some ⟨.sound, description⟩
  | .backgroundStop _ | .wait _ => none

/-- The call that generates the asset of a line. -/
def ScriptLine.generation? (line : ScriptLine R) : Option (Call R) :=
  match line.command with
  | .voice _ phrase => some (.speech phrase)
  | .sound _ duration description => some (.sound description (some duration))
  | .backgroundStart _ description => some (.sound description none)
  | .backgroundStop _ | .wait _ => none

/-- What the lines of a script take one after the other, where each may look at the lines before
it. -/
def lineByLine {α : Type} (take : List (ScriptLine R) → ScriptLine R → List α)
    (lines : List (ScriptLine R)) : List α :=
  lines.zipIdx.flatMap fun (line, i) => take (lines.take i) line

/-- What the calls of a script depend on beside its lines: where assets are kept, which files are
there at the beginning, and what the clock reads before each position and behind the last one. -/
structure Occasion (R : Type) where
  path : AssetKey → String
  present : String → Bool
  clock : Nat → R

namespace Occasion

variable (o : Occasion R)

/-- The file of the asset of a line. -/
def file? (line : ScriptLine R) : Option String := line.key?.map o.path

/-- The generation that a line takes behind the lines before it. -/
def generation (before : List (ScriptLine R)) (line : ScriptLine R) : List (Call R) :=
  match o.file? line with
  | none => []
  | some path =>
    if o.present path || before.any (fun earlier => o.file? earlier = some path) then []
    else line.generation?.toList

/-- The file of a track that ends behind the given lines, if it has played for more than the
noise. -/
def loop? (before : List (ScriptLine R)) (description : String) : Option String :=
  match Clips.latestStart? before description before.length with
  | some (start, _) =>
    if o.clock before.length - o.clock start ≤ Scalar.millionth then none
    else some (o.path ⟨.sound, description⟩)
  | none => none

/-- The file of the track that a line stops after more than the noise. -/
def loopAt? (before : List (ScriptLine R)) (line : ScriptLine R) : Option String :=
  match line.command with
  | .backgroundStop description => o.loop? before description
  | _ => none

/-- The files of the tracks that some lines stop after more than the noise. -/
def loops (lines : List (ScriptLine R)) : List String :=
  lineByLine (fun before line => (o.loopAt? before line).toList) lines

/-- The measurements of the files of a list, each where it comes up first, unless it has been
measured before. -/
def measurements (measured : List String) : List String → List (Call R)
  | [] => []
  | path :: rest =>
    (if path ∈ measured then [] else [.probe path]) ++ measurements (measured ++ [path]) rest

/-- The calls that a line takes behind the lines before it. -/
def callsAt (before : List (ScriptLine R)) (line : ScriptLine R) : List (Call R) :=
  o.generation before line ++
    match line.command with
    | .voice _ phrase => [.probe (o.path ⟨.voice, phrase⟩)]
    | _ => measurements (o.loops before) (o.loopAt? before line).toList

/-- The calls that the lines of a script take. -/
def calls (lines : List (ScriptLine R)) : List (Call R) := lineByLine o.callsAt lines

/-- The calls that the end of a script takes to stop the given tracks. -/
def callsAtEnd (lines : List (ScriptLine R)) (tracks : List String) : List (Call R) :=
  measurements (o.loops lines) (tracks.filterMap (o.loop? lines))

end Occasion

end Soundstage
