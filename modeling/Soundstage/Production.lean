import Soundstage.Provider
import Soundstage.Tool.Probe
import Soundstage.Tool.Render

/-!
# The studio of a run

`Settings.studio` puts together what the settings of a run ask for: assets from the provider,
lengths from ffprobe, and mixes from ffmpeg.
-/

namespace Soundstage

/-- What a run finds outside of itself. -/
structure World (σ : Type) where
  programs : Programs σ
  network : Network σ
  /-- The key of the account that the environment gives. -/
  key : Option String := none
  /-- The number of the running process. -/
  process : Nat
  /-- The number of workers that suits the machine. -/
  workers : Nat

namespace Settings

variable {σ : Type}

/-- A limit in milliseconds, from a number of seconds. -/
def milliseconds (seconds : Nat) : Option Nat := (Limits.limit? seconds).map (1000 * ·)

/-- Where a run keeps its assets. -/
def store (s : Settings) (world : World σ) : Store :=
  ⟨s.assets, s.assetExtension, world.process⟩

/-- Who generates and measures in a run. -/
def collaborators (s : Settings) (world : World σ) : Collaborators Float σ :=
  let provider := Provider.ofAccount s.account (s.apiKey world.key)
  let prober : Prober := { limit := milliseconds s.limits.probe }
  { speech := fun _ => provider.ask world.network .speech
    sound := fun _ _ => provider.ask world.network .sound
    probe := prober.measure world.programs
    meanwhile := fun state => (false, state) }

/-- The studio of a run, if the settings can be used. -/
def studio (s : Settings) (world : World σ) : Except (Failure Float) (Studio σ) := do
  s.check
  let renderer : Renderer :=
    { encoding := s.encoding, limit := milliseconds s.limits.render, process := world.process }
  return {
    setup := {
      store := s.store world
      collaborators := s.collaborators world
      workers := s.workers }
    render := renderer.render world.programs }

end Settings

end Soundstage
