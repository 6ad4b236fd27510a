import Soundstage.Json.Reader
import Soundstage.Json.Record
import Soundstage.Timeline.Session
import Soundstage.Tool.Run

/-!
# Measuring files

The length of a file is what ffprobe reports of it: a JSON record whose member `format` is a
record whose member `duration` is a text that reads as a number. Only finite lengths above zero
are accepted.
-/

namespace Soundstage

/-- Why a report of ffprobe holds no length. -/
inductive NoLength where
  /-- It is no JSON, or has other contents. -/
  | unreadable
  /-- It does not mention a length. -/
  | absent
  /-- The length is no number. -/
  | notNumber (text : String)
  /-- The length cannot be played. -/
  | unplayable (value : Float)

/-- The text about a report without a length. -/
def NoLength.message : NoLength → String
  | unreadable => "ffprobe json parse failed"
  | absent => "ffprobe reported no duration (not recognized audio?)"
  | notNumber text => "invalid duration '" ++ text ++ "'"
  | unplayable value => "non-positive duration " ++ Style.plain.text value

namespace Probe

open Json

/-- The text of the length in a report's member `format`. -/
def formatLength? (saved : Tree) : Option (Option String) := do
  let [duration] ← saved.members? ["duration"] false | none
  Member.optional Tree.string? duration

/-- The text of the length in a report, where it has one. -/
def reportedLength? (report : Tree) : Option (Option String) := do
  let [format] ← report.members? ["format"] false | none
  return (← Member.optional formatLength? format).join

/-- The length that a report states. -/
def lengthOf (report : List UInt8) : Except NoLength Float :=
  match (Tree.read? (Utf8.decode report)).bind reportedLength? with
  | none => .error .unreadable
  | some none => .error .absent
  | some (some text) =>
    match Numeral.readFloat? (Text.trim text.toList) with
    | none => .error (.notNumber text)
    | some length =>
      if Scalar.IsLength length then .ok length else .error (.unplayable length)

end Probe

/-- How files are measured. -/
structure Prober where
  program : String := "ffprobe"
  /-- The milliseconds that measuring may take. -/
  limit : Option Nat := none

namespace Prober

/-- The invocation that reports the length of a file. -/
def invocation (prober : Prober) (path : String) : Invocation where
  program := prober.program
  arguments :=
    ["-v", "error", "-print_format", "json", "-show_entries", "format=duration", path]
  limit := prober.limit

/-- The length of a file, from the outcome of the invocation. -/
def conclude (path : String) :
    Except ToolFailure ToolOutput → Except (Failure Float) Float
  | .error (.cancelled _) => .error (.cancelled ("probe '" ++ path ++ "'"))
  | .error failure => .error (.probeFailed path failure.message)
  | .ok out =>
    if out.status.isSuccess then
      match Probe.lengthOf out.output.data.toList with
      | .ok length => .ok length
      | .error reason => .error (.probeFailed path reason.message)
    else .error (.probeFailed path
      ("ffprobe exited with " ++ out.status.text ++ ": " ++ out.complaint))

/-- Measures a file. -/
def measure {σ : Type} (prober : Prober) (programs : Programs σ) (path : String) (disk : Disk)
    (cancelled : Bool) (state : σ) : Reply Float Float σ :=
  let run := (prober.invocation path).run programs disk cancelled state
  ⟨conclude path run.outcome, run.cancelled, run.state⟩

end Prober

end Soundstage
