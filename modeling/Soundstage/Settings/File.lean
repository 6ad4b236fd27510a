import Soundstage.Disk.Access
import Soundstage.Json.Saved
import Soundstage.Settings.Basic

/-!
# Settings as files

Settings are saved as JSON. Every member may be absent and then keeps its value to begin with; for
the number of workers that value is given from outside, as it depends on the machine.
-/

namespace Soundstage

open Json Json.Tree

namespace Limits

/-- Limits as they are saved. -/
def tree (l : Limits) : Tree := .ofMembers
  [("generate_secs", .ofNat l.generate), ("probe_secs", .ofNat l.probe),
    ("render_secs", .ofNat l.render)]

/-- Takes limits back. -/
def ofTree? (saved : Tree) : Option Limits := do
  let d : Limits := {}
  let [generate, probe, render] ←
    saved.members? ["generate_secs", "probe_secs", "render_secs"] true | none
  return {
    generate := ← Member.orElse (count? countBound) d.generate generate
    probe := ← Member.orElse (count? countBound) d.probe probe
    render := ← Member.orElse (count? countBound) d.render render }

end Limits

namespace Encoding

/-- The bound of sample rates. -/
def sampleRateBound : Nat := 0x100000000

/-- An encoding as it is saved. -/
def tree (e : Encoding) : Tree := .ofMembers
  [("sample_rate", .ofNat e.sampleRate), ("codec", .ofString e.codec)]

/-- Takes an encoding back. -/
def ofTree? (saved : Tree) : Option Encoding := do
  let d : Encoding := {}
  let [sampleRate, codec] ← saved.members? ["sample_rate", "codec"] true | none
  return {
    sampleRate := ← Member.orElse (count? sampleRateBound) d.sampleRate sampleRate
    codec := ← Member.orElse string? d.codec codec }

end Encoding

namespace Account

/-- An account as it is saved. -/
def tree (a : Account) : Tree := .ofMembers
  [("api_key", .ofOption a.apiKey), ("base_url", .ofString a.baseUrl),
    ("voice_id", .ofString a.voice), ("model_id", .ofString a.model),
    ("prompt_influence", .ofFloat a.influence), ("output_format", .ofString a.format)]

/-- Takes an account back. -/
def ofTree? (saved : Tree) : Option Account := do
  let d : Account := {}
  let [apiKey, baseUrl, voice, model, influence, format] ← saved.members?
    ["api_key", "base_url", "voice_id", "model_id", "prompt_influence", "output_format"] true | none
  return {
    apiKey := ← Member.optional string? apiKey
    baseUrl := ← Member.orElse string? d.baseUrl baseUrl
    voice := ← Member.orElse string? d.voice voice
    model := ← Member.orElse string? d.model model
    influence := ← Member.orElse float? d.influence influence
    format := ← Member.orElse string? d.format format }

end Account

namespace Settings

/-- Settings as they are saved. -/
def tree (s : Settings) : Tree := .ofMembers
  [("run_dir", .ofString s.runFolder), ("cache_dir", .ofOption s.assetFolder),
    ("asset_extension", .ofString s.assetExtension), ("jobs", .ofNat s.workers),
    ("timeouts", s.limits.tree), ("render", s.encoding.tree), ("elevenlabs", s.account.tree)]

/-- Takes settings back. The given number of workers is taken where none is saved. -/
def ofTree? (workers : Nat) (saved : Tree) : Option Settings := do
  let d : Settings := { workers := workers }
  let [runFolder, assetFolder, assetExtension, workers, limits, encoding, account] ←
    saved.members? ["run_dir", "cache_dir", "asset_extension", "jobs", "timeouts", "render",
      "elevenlabs"] true | none
  return {
    runFolder := ← Member.orElse string? d.runFolder runFolder
    assetFolder := ← Member.optional string? assetFolder
    assetExtension := ← Member.orElse string? d.assetExtension assetExtension
    workers := ← Member.orElse (count? countBound) d.workers workers
    limits := ← Member.orElse Limits.ofTree? d.limits limits
    encoding := ← Member.orElse Encoding.ofTree? d.encoding encoding
    account := ← Member.orElse Account.ofTree? d.account account }

/-- Settings as the text of a file. -/
def text (s : Settings) : String := String.ofList s.tree.compact

/-- The settings that a text has saved; they are not checked. -/
def read? (workers : Nat) (text : String) : Option Settings :=
  (Tree.read? (.ofString text)).bind (ofTree? workers)

/-- The settings that a text has saved, if a run can use them. -/
def ofText (workers : Nat) (text : String) : Except (Failure Float) Settings :=
  match read? workers text with
  | none => .error (.configuration "invalid configuration JSON")
  | some s => do
    s.check
    return s

/-- The settings of a file, if a run can use them. -/
def load (workers : Nat) (disk : Disk) (path : String) : Except (Failure Float) Settings :=
  match disk.readText path with
  | .error fault =>
    .error (.configuration ("failed to read '" ++ path ++ "': " ++ fault.message))
  | .ok text =>
    match ofText workers text with
    | .error failure => .error (.configuration (path ++ ": " ++ failure.message))
    | .ok s => .ok s

end Settings

end Soundstage
