import Soundstage.Cancel
import Soundstage.Settings.Basic
import Soundstage.Timeline.Session

/-!
# The provider of assets

Phrases are spoken and sounds are generated by a provider that is asked over a network. `Provider`
decides what is asked and whether it is asked at all: not once giving up has been requested, and not
without a key.
-/

namespace Soundstage

/-- A request to the provider. -/
structure Inquiry where
  url : String
  key : String
  deriving DecidableEq, Repr

/-- The way to the provider, which may keep a state of its own. An answer is either the generated
bytes, or the causes for which there are none, nearest first. -/
abbrev Network (σ : Type) := Inquiry → σ → Except (List String) ByteArray × σ

/-- The use of a provider, with the key that stands for the account. -/
structure Provider where
  account : Account
  key : Option String

namespace Provider

/-- The provider with a key, if that is not blank. -/
def ofAccount (account : Account) (key : Option String) : Provider :=
  ⟨account, key.filter fun key => !(Text.trimmed key).isEmpty⟩

/-- The address of a service of the provider. -/
def url (p : Provider) (service : String) : String :=
  String.ofList ((p.account.baseUrl.toList.reverse.dropWhile (· = '/')).reverse)
    ++ service ++ "?output_format=" ++ p.account.format

/-- What can be asked of the provider. -/
inductive Service where
  | speech
  | sound
  deriving DecidableEq, Repr

/-- How a service is named in messages. -/
def Service.name : Service → String
  | speech => "speech synthesis"
  | sound => "sound generation"

/-- Where a service is found below the address of the provider. -/
def path (p : Provider) : Service → String
  | .speech => "/v1/text-to-speech/" ++ p.account.voice
  | .sound => "/v1/sound-generation"

/-- The request for a service, unless giving up has been requested or there is no key. -/
def inquiry (p : Provider) (service : Service) (cancelled : Bool) :
    Except (Failure Float) Inquiry := do
  checkCancelled cancelled service.name
  match p.key with
  | none => .error (.configuration (service.name
      ++ " needs an ElevenLabs API key (set ELEVENLABS_API_KEY or elevenlabs.api_key)"))
  | some key => .ok ⟨p.url (p.path service), key⟩

/-- Asks for a service. -/
def ask {σ : Type} (p : Provider) (network : Network σ) (service : Service) (cancelled : Bool)
    (state : σ) : Reply Float ByteArray σ :=
  match p.inquiry service cancelled with
  | .error failure => ⟨.error failure, false, state⟩
  | .ok inquiry =>
    match network inquiry state with
    | (.ok bytes, state) => ⟨.ok bytes, false, state⟩
    | (.error causes, state) =>
      ⟨.error (.other (service.name ++ ": request to '" ++ inquiry.url ++ "' failed") causes),
        false, state⟩

end Provider

end Soundstage
