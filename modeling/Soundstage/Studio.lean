import Soundstage.Cancel
import Soundstage.Mix.Plan
import Soundstage.Script.Parser
import Soundstage.Timeline.Build

/-!
# From script to program

A `Studio` has all that turns a script into a rendered program: a setup for building timelines and
a renderer. Its three operations go one step further each: to a timeline, to a mix plan, and to a
file.
-/

namespace Soundstage

/-- What a renderer did: its reply, and the disk it left behind. -/
structure Rendering (σ : Type) where
  reply : Reply Float Unit σ
  disk : Disk

/-- A setup together with a renderer, which is told the plan, the path to render to and whether
giving up has been requested. -/
structure Studio (σ : Type) where
  setup : Setup Float σ
  render : MixPlan → String → Disk → Bool → σ → Rendering σ

namespace Studio

variable {σ : Type}

/-- Reads a script and builds its timeline. -/
def timeline (studio : Studio σ) (text : String) : Work Float σ (Timeline Float × Report) :=
  match Script.parse text with
  | .error failure => throw failure
  | .ok lines => build studio.setup lines

/-- Reads a script and compiles it to a mix plan. -/
def compile (studio : Studio σ) (text : String) : Work Float σ MixPlan := do
  let (timeline, _) ← studio.timeline text
  return .ofTimeline timeline

/-- Calls the renderer. -/
def runRenderer (studio : Studio σ) (plan : MixPlan) (out : String) : Work Float σ Unit := fun s =>
  let r := studio.render plan out s.shelf.disk s.surroundings.cancelled s.surroundings.state
  let (outcome, surroundings) :=
    s.surroundings.ask (.render out plan.inputs.length) fun _ _ => r.reply
  let s : Session Float σ := ⟨{ s.shelf with disk := r.disk }, surroundings⟩
  match outcome with
  | .ok () => .ok () s
  | .error failure => .error failure s

/-- Compiles a script and renders it to a file, unless giving up has been requested before. -/
def renderScript (studio : Studio σ) (text out : String) : Work Float σ MixPlan := do
  let plan ← studio.compile text
  Work.checkpoint studio.setup.collaborators "render"
  studio.runRenderer plan out
  return plan

end Studio

end Soundstage
