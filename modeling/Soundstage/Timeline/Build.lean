import Soundstage.Timeline.Basic
import Soundstage.Timeline.Session
import Soundstage.Timeline.Structure
import Soundstage.Timeline.Tiling

/-!
# Building a timeline

`build` checks the structure of a script and then runs its commands in order over a clock. Voices
and sounds are placed at the clock; a background track is placed when it is stopped, or at the end
of the script, because only then its span is known. With several workers all assets of the script
are generated before the first command runs; which worker comes first is up to a `Schedule`.
-/

namespace Soundstage

variable {R σ : Type} [Scalar R]

/-- Counts of one build. -/
structure Report where
  commands : Nat := 0
  segments : Nat := 0
  backgroundTracks : Nat := 0
  /-- Tracks that the end of the script has stopped. -/
  implicitFlushes : Nat := 0
  deriving DecidableEq, Repr

/-- The order in which workers take up requests: for each count, an order of that many. -/
structure Schedule where
  order : Nat → List Nat
  perm : ∀ n, (order n).Perm (List.range n)

/-- Workers that take up requests in the order of the script. -/
def Schedule.inOrder : Schedule := ⟨List.range, fun _ => .refl _⟩

/-- What a build needs: where assets are kept, who generates and measures them, and how many
workers generate ahead. -/
structure Setup (R σ : Type) where
  store : Store
  collaborators : Collaborators R σ
  workers : Nat := 1
  schedule : Schedule := .inOrder

/-- The first mention of an asset in a script, with the length that is wished for. -/
structure Request (R : Type) where
  key : AssetKey
  hint : Option R
  line : Nat

/-- The asset that a line needs. -/
def ScriptLine.request? (line : ScriptLine R) : Option (Request R) :=
  match line.command with
  | .voice _ phrase => some ⟨⟨.voice, phrase⟩, none, line.line⟩
  | .sound _ duration description => some ⟨⟨.sound, description⟩, some duration, line.line⟩
  | .backgroundStart _ description => some ⟨⟨.sound, description⟩, none, line.line⟩
  | .backgroundStop _ | .wait _ => none

/-- The requests of a list that are the first for their key, where `seen` have been requested. -/
def firstRequests (seen : List AssetKey) : List (Request R) → List (Request R)
  | [] => []
  | r :: rest =>
    if r.key ∈ seen then firstRequests seen rest else r :: firstRequests (r.key :: seen) rest

/-- The assets of a script, each with its first mention, in the order of the script. -/
def requests (lines : List (ScriptLine R)) : List (Request R) :=
  firstRequests [] (lines.filterMap ScriptLine.request?)

/-- How the failure of a generator is reported: a request to give up keeps its kind. -/
def Request.failure (r : Request R) : Failure R → Failure R
  | .generationFailed line key cause => .generationFailed line key cause
  | cause =>
    if cause.isCancelled then cause.locate r.line
    else .generationFailed r.line r.key.label cause

namespace Build

/-- The path of a requested asset, which is generated if it is absent. -/
def materialize (setup : Setup R σ) (r : Request R) : Work R σ String := fun s =>
  match setup.store.ensure r.key (setup.collaborators.generate r.key r.hint) s.shelf
      s.surroundings with
  | (.ok path, shelf, surroundings) => .ok path ⟨shelf, surroundings⟩
  | (.error failure, shelf, surroundings) => .error (r.failure failure) ⟨shelf, surroundings⟩

/-- The length of a file, which has to be playable. -/
def measure (setup : Setup R σ) (path : String) (line : Nat) : Work R σ R := do
  let length ← Work.atLine line (Work.probe setup.collaborators path)
  if Scalar.IsLength length then return length
  else throw (Failure.locate line (.unplayable path length))

/-- The earliest of some failures: the first one with the least line, or the first one of all if
none has a line. -/
def earlier : Option (Failure R) → Failure R → Option (Failure R)
  | none, failure => some failure
  | some best, failure =>
    match best.line?, failure.line? with
    | some b, some l => if l < b then some failure else some best
    | none, some _ => some failure
    | _, none => some best

/-- The failure that stands for the outcomes of several requests, in the order of the requests. -/
def firstFailure {α : Type} (outcomes : List (Except (Failure R) α)) : Option (Failure R) :=
  outcomes.foldl (fun best outcome =>
    match outcome with
    | .ok _ => best
    | .error failure => earlier best failure) none

/-- Runs requests in the given order of their positions and notes each outcome by its position. -/
def runRequests (setup : Setup R σ) (rs : List (Request R)) :
    List Nat → Work R σ (List (Nat × Except (Failure R) String))
  | [] => return []
  | i :: rest =>
    match rs[i]? with
    | none => runRequests setup rs rest
    | some r => do
      let outcome ← Work.outcome (materialize setup r)
      return (i, outcome) :: (← runRequests setup rs rest)

/-- Generates all assets of a script that are absent, in the order of the schedule. -/
def prefetch (setup : Setup R σ) (lines : List (ScriptLine R)) : Work R σ Unit := do
  let disk := (← get).shelf.disk
  let pending := (requests lines).filter fun r => (setup.store.lookup r.key disk).isNone
  let outcomes ← runRequests setup pending (setup.schedule.order pending.length)
  match firstFailure ((List.range pending.length).filterMap (List.lookup · outcomes)) with
  | some failure => throw failure
  | none => return ()

/-- A background track that plays. -/
structure Track (R : Type) where
  description : String
  pan : R
  path : String
  /-- The clock when it was started. -/
  start : R
  line : Nat

/-- A build between two commands. -/
structure Progress (R : Type) where
  clock : R
  segments : Array (Segment R) := #[]
  /-- The tracks that play, in the order in which they were started. -/
  live : List (Track R) := []
  /-- The measured lengths of loops, by their paths. -/
  loops : List (String × R) := []
  report : Report := {}

/-- The length of a loop, which is measured once in a build. -/
def loopLength (setup : Setup R σ) (p : Progress R) (path : String) (line : Nat) :
    Work R σ (R × Progress R) :=
  match p.loops.lookup path with
  | some length => return (length, p)
  | none => do
    let length ← measure setup path line
    return (length, { p with loops := (path, length) :: p.loops })

/-- Places the copies of a track from its start to the clock. The given line is responsible for
failures. A span within the noise is not played, and its loop is not measured. -/
def flush (setup : Setup R σ) (p : Progress R) (track : Track R) (line : Nat) :
    Work R σ (Progress R) := do
  let span := p.clock - track.start
  if span ≤ Scalar.millionth then return p
  let (length, p) ← loopLength setup p track.path line
  match tileFrom length track.start span with
  | .error failure => throw (failure.locate line)
  | .ok tiles =>
    let placed := tiles.map fun t => (⟨track.path, t.offset, t.duration, track.pan⟩ : Segment R)
    return { p with segments := p.segments ++ placed }

/-- Places a clip at the clock and moves the clock to its end. -/
def Progress.play (p : Progress R) (path : String) (duration pan : R) : Progress R :=
  { p with
    segments := p.segments.push ⟨path, p.clock, duration, pan⟩
    clock := p.clock + duration }

/-- What a command is checked for again when it is its turn. The check of the structure has asked
for all of it before the first command, so that in a build nothing is refused here. -/
def Progress.recheck (p : Progress R) (sl : ScriptLine R) : Except (Failure R) Unit :=
  match sl.command with
  | .sound _ duration _ =>
    if Scalar.IsLength duration then .ok () else .error (.invalidDuration sl.line duration)
  | .backgroundStart _ description =>
    if p.live.any (·.description = description) then .error (.duplicateTrack sl.line description)
    else .ok ()
  | .wait duration =>
    if Scalar.IsPause duration then .ok () else .error (.invalidDuration sl.line duration)
  | .voice .. | .backgroundStop _ => .ok ()

/-- Does what a command says. -/
def perform (setup : Setup R σ) (p : Progress R) (sl : ScriptLine R) : Work R σ (Progress R) :=
  match sl.command with
  | .voice pan phrase => do
    let path ← materialize setup ⟨⟨.voice, phrase⟩, none, sl.line⟩
    let duration ← measure setup path sl.line
    return p.play path duration pan
  | .sound pan duration description => do
    let path ← materialize setup ⟨⟨.sound, description⟩, some duration, sl.line⟩
    return p.play path duration pan
  | .backgroundStart pan description => do
    let path ← materialize setup ⟨⟨.sound, description⟩, none, sl.line⟩
    return { p with
      live := p.live ++ [⟨description, pan, path, p.clock, sl.line⟩]
      report := { p.report with backgroundTracks := p.report.backgroundTracks + 1 } }
  | .backgroundStop description =>
    match p.live.find? (·.description = description) with
    | none => throw (.unknownTrack sl.line description)
    | some track =>
      flush setup { p with live := p.live.eraseP (·.description = description) } track sl.line
  | .wait duration => return { p with clock := p.clock + duration }

/-- Runs one command that is not refused. -/
def apply (setup : Setup R σ) (p : Progress R) (sl : ScriptLine R) : Work R σ (Progress R) :=
  match p.recheck sl with
  | .error failure => throw failure
  | .ok () => perform setup p sl

/-- Runs one command unless giving up has been requested. -/
def step (setup : Setup R σ) (p : Progress R) (sl : ScriptLine R) : Work R σ (Progress R) := do
  Work.atLine sl.line (Work.checkpoint setup.collaborators "timeline build")
  let p ← apply setup p sl
  return { p with report := { p.report with commands := p.report.commands + 1 } }

/-- Places a track that the end of the script stops. -/
def flushLeft (setup : Setup R σ) (p : Progress R) (track : Track R) : Work R σ (Progress R) := do
  let p ← flush setup p track track.line
  return { p with report := { p.report with implicitFlushes := p.report.implicitFlushes + 1 } }

/-- Runs all commands over a clock that starts at zero, then stops the tracks that still play. -/
def run (setup : Setup R σ) (lines : List (ScriptLine R)) : Work R σ (Progress R) := do
  let p ← lines.foldlM (step setup) { clock := Scalar.zero }
  p.live.foldlM (flushLeft setup) { p with live := [] }

/-- The timeline and the report of a finished run. -/
def finish (p : Progress R) : Except (Failure R) (Timeline R × Report) := do
  let timeline : Timeline R := ⟨p.clock, p.segments.toList⟩
  timeline.check
  return (timeline, { p.report with segments := p.segments.size })

end Build

/-- Builds the timeline of a script. -/
def build (setup : Setup R σ) (lines : List (ScriptLine R)) : Work R σ (Timeline R × Report) := do
  match checkStructure lines with
  | .error failure => throw failure
  | .ok () => pure ()
  if 1 < setup.workers then Build.prefetch setup lines
  match Build.finish (← Build.run setup lines) with
  | .error failure => throw failure
  | .ok result => return result

end Soundstage
