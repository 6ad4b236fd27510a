import Soundstage.Mix.Graph
import Soundstage.Settings.Basic
import Soundstage.Studio
import Soundstage.Tool.Run

/-!
# Rendering a plan

A plan is rendered by ffmpeg into a partial file beside its goal, which is moved into place once
ffmpeg has succeeded. The partial file is removed after every failure, so the goal holds either what
it held before or a whole program.
-/

namespace Soundstage

/-- How plans are rendered. -/
structure Renderer where
  program : String := "ffmpeg"
  encoding : Encoding := {}
  /-- The milliseconds that rendering may take. -/
  limit : Option Nat := none
  /-- The number of the running process, which is part of the names of partial files. -/
  process : Nat

namespace Renderer

/-- The first input of a plan that is not a file, and its index. -/
def missingInput? (plan : MixPlan) (disk : Disk) : Option (Segment Float × Nat) :=
  plan.inputs.zipIdx.find? fun (s, _) => !disk.isFile s.path

/-- Refuses plans that cannot be rendered. -/
def check (r : Renderer) (plan : MixPlan) (disk : Disk) : Except (Failure Float) Unit :=
  if r.encoding.sampleRate = 0 then .error (.renderFailed "sample rate must be non-zero")
  else if ¬ Scalar.IsLength plan.total then
    .error (.renderFailed
      ("nothing to render: program duration is " ++ Style.plain.text plan.total))
  else match missingInput? plan disk with
    | some (s, index) => .error (.renderFailed
        ("segment " ++ index.repr ++ ": input '" ++ s.path ++ "' does not exist"))
    | none => .ok ()

/-- Makes the folder that a path lies in. -/
def makeFolderFor (path : String) (disk : Disk) : Except (Failure Float) Unit × Disk :=
  match Path.parent? path with
  | none | some "" => (.ok (), disk)
  | some folder =>
    match disk.makeFolders folder with
    | (.ok (), disk) => (.ok (), disk)
    | (.error fault, disk) =>
      (.error (.refused ("failed to create output directory '" ++ folder ++ "'") fault), disk)

/-- The name of the partial file for a file name. The extension stays at the end, as it tells ffmpeg
what to write. -/
def partialName (r : Renderer) (name : Option String) : String :=
  let (stem, extension) := match name with
    | some name => Path.splitExtension name
    | none => ("out", none)
  "." ++ stem ++ "." ++ r.process.repr ++ ".partial"
    ++ (match extension with
      | some extension => "." ++ extension
      | none => "")

/-- The path of the partial file for a path. -/
def partialPath (r : Renderer) (out : String) : String :=
  Path.withFileName out (r.partialName (Path.fileName? out))

/-- The invocation that renders a plan to a file. -/
def invocation (r : Renderer) (plan : MixPlan) (out : String) : Invocation where
  program := r.program
  arguments := plan.arguments r.encoding.sampleRate r.encoding.codec out
  limit := r.limit

/-- Whether ffmpeg has succeeded, from the outcome of the invocation. -/
def conclude : Except ToolFailure ToolOutput → Except (Failure Float) Unit
  | .error (.cancelled _) => .error (.cancelled "render")
  | .error failure => .error (.renderFailed failure.message)
  | .ok out =>
    if out.status.isSuccess then .ok ()
    else .error (.renderFailed
      ("ffmpeg exited with status " ++ out.status.text ++ ": " ++ out.complaint))

/-- Moves the partial file into place. -/
def moveIntoPlace (source out : String) (disk : Disk) : Except (Failure Float) Disk :=
  match disk.rename source out with
  | .ok disk => .ok disk
  | .error fault =>
    .error (.refused ("failed to move rendered file into place at '" ++ out ++ "'") fault)

/-- Renders into the partial file and moves it into place; the partial file is removed after a
failure. -/
def produce {σ : Type} (r : Renderer) (programs : Programs σ) (plan : MixPlan) (out : String)
    (disk : Disk) (cancelled : Bool) (state : σ) : Rendering σ :=
  let source := r.partialPath out
  let run := (r.invocation plan source).run programs disk cancelled state
  match conclude run.outcome with
  | .error failure => ⟨⟨.error failure, run.cancelled, run.state⟩, Store.discard source run.disk⟩
  | .ok () =>
    match moveIntoPlace source out run.disk with
    | .error failure => ⟨⟨.error failure, run.cancelled, run.state⟩, Store.discard source run.disk⟩
    | .ok disk => ⟨⟨.ok (), run.cancelled, run.state⟩, disk⟩

/-- Renders a plan to a file. -/
def render {σ : Type} (r : Renderer) (programs : Programs σ) (plan : MixPlan) (out : String)
    (disk : Disk) (cancelled : Bool) (state : σ) : Rendering σ :=
  let refuse (failure : Failure Float) (disk : Disk) : Rendering σ :=
    ⟨⟨.error failure, false, state⟩, disk⟩
  match r.check plan disk with
  | .error failure => refuse failure disk
  | .ok () =>
    if !programs.answers r.program state then
      refuse (.renderFailed "ffmpeg is required for rendering, but was not found on PATH") disk
    else match makeFolderFor out disk with
      | (.error failure, disk) => refuse failure disk
      | (.ok (), disk) => r.produce programs plan out disk cancelled state

end Renderer

end Soundstage
