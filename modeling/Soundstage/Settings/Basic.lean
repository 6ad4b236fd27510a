import Soundstage.Disk.Path
import Soundstage.Failure
import Soundstage.Text.Quoted

/-!
# Settings

What can be set about a run: where its files go, how many workers generate ahead, how long each
step may take, how the mix is encoded, and which provider generates assets. Everything has a value
to begin with. `Settings.check` refuses values that no run can use.
-/

namespace Soundstage

/-- The limits of the steps in seconds. Zero stands for no limit. -/
structure Limits where
  generate : Nat := 120
  probe : Nat := 30
  render : Nat := 600
  deriving DecidableEq, Repr

/-- A limit in seconds, if there is one. -/
def Limits.limit? (seconds : Nat) : Option Nat := if seconds = 0 then none else some seconds

/-- How a mix is encoded. -/
structure Encoding where
  sampleRate : Nat := 48000
  codec : String := "libopus"
  deriving DecidableEq, Repr

/-- How the provider of generated assets is used. -/
structure Account where
  apiKey : Option String := none
  baseUrl : String := "https://api.elevenlabs.io"
  voice : String := "21m00Tcm4TlvDq8ikWAM"
  model : String := "eleven_multilingual_v2"
  /-- How literally sounds follow their description, from zero to one. -/
  influence : Float := 1.0
  format : String := "opus_48000_192"

/-- The settings of a run. -/
structure Settings where
  runFolder : String := "runs/default"
  /-- Where assets are kept, if not below the folder of the run. -/
  assetFolder : Option String := none
  assetExtension : String := "opus"
  workers : Nat
  limits : Limits := {}
  encoding : Encoding := {}
  account : Account := {}

/-- Which setting cannot be used. -/
inductive Unusable where
  | workers
  | assetExtension
  | sampleRate
  | codec
  | influence
  deriving DecidableEq, Repr

/-- The text about a setting that cannot be used. -/
def Unusable.message : Unusable → String
  | workers => "jobs must be >= 1"
  | assetExtension => "asset_extension must be a non-empty alphanumeric extension (e.g. 'opus')"
  | sampleRate => "render.sample_rate must be non-zero"
  | codec => "render.codec must be non-empty"
  | influence => "elevenlabs.prompt_influence must be within 0..=1"

namespace Settings

/-- The first setting that cannot be used. -/
def unusable? (s : Settings) : Option Unusable :=
  if s.workers = 0 then some .workers
  else if s.assetExtension.isEmpty || !s.assetExtension.toList.all Char.isAlphanum then
    some .assetExtension
  else if s.encoding.sampleRate = 0 then some .sampleRate
  else if (Text.trimmed s.encoding.codec).isEmpty then some .codec
  else if 0 ≤ s.account.influence ∧ s.account.influence ≤ 1 then none
  else some .influence

/-- Refuses settings that no run can use. -/
def check (s : Settings) : Except (Failure Float) Unit :=
  match s.unusable? with
  | none => .ok ()
  | some unusable => .error (.configuration unusable.message)

/-- The folder in which assets are kept. -/
def assets (s : Settings) : String := s.assetFolder.getD (Path.join s.runFolder "assets")

/-- The key of the account: the one of the environment unless it is blank, otherwise the one that is
set. -/
def apiKey (s : Settings) (environment : Option String) : Option String :=
  (environment.filter fun key => !(Text.trimmed key).isEmpty).or s.account.apiKey

end Settings

/-- A description of an account that keeps its key to itself. -/
def Account.description (a : Account) : String :=
  "ElevenLabsConfig \x7b api_key: "
    ++ (if a.apiKey.isSome then "Some(" ++ Text.quoted "<redacted>" ++ ")" else "None")
    ++ ", base_url: " ++ Text.quoted a.baseUrl ++ ", voice_id: " ++ Text.quoted a.voice
    ++ ", model_id: " ++ Text.quoted a.model
    ++ ", prompt_influence: " ++ Style.inspected.text a.influence
    ++ ", output_format: " ++ Text.quoted a.format ++ " \x7d"

end Soundstage
