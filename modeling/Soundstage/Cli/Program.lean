import Soundstage.Cli.Arguments
import Soundstage.Production
import Soundstage.Settings.File

/-!
# The program

What the program does for a command line: what it writes, the status it ends with, and the disk it
leaves behind. A failure is reported with what was being done, and with its causes below.
-/

namespace Soundstage.Cli

/-- What a run of the program leaves behind. -/
structure Outcome where
  status : Nat
  output : String := ""
  errors : String := ""
  disk : Disk

/-- A failure on its way to the user: the texts of what was being done and of all causes, nearest
first. -/
abbrev Trouble := List String

/-- Says what was being done when something failed. -/
def within {α : Type} (doing : String) : Except (Failure Float) α → Except Trouble α
  | .ok a => .ok a
  | .error failure => .error (doing :: failure.chain)

/-- A text whose further lines are indented. -/
def indented (margin text : String) : String :=
  String.ofList (text.toList.flatMap fun c => if c = '\n' then '\n' :: margin.toList else [c])

/-- One cause on a line of its own, with its number where there are several. -/
def causeText (number : Option Nat) (text : String) : String :=
  match number with
  | none => "\n    " ++ indented "    " text
  | some n =>
    "\n" ++ String.ofList (List.replicate (5 - n.repr.length) ' ') ++ n.repr ++ ": "
      ++ indented "       " text

/-- The report of a failure. -/
def report : Trouble → String
  | [] => "Error: \n"
  | [doing] => "Error: " ++ doing ++ "\n"
  | [doing, cause] => "Error: " ++ doing ++ "\n\nCaused by:" ++ causeText none cause ++ "\n"
  | doing :: causes =>
    "Error: " ++ doing ++ "\n\nCaused by:"
      ++ String.join (causes.zipIdx.map fun (text, n) => causeText (some n) text) ++ "\n"

/-- The files that a task reads in any case. -/
def inputs : Task → List String
  | .check script => [script]
  | .plan script config | .render script config _ => script :: config.toList
  | .key _ _ => []

/-- The text of a script. -/
def readScript (disk : Disk) (path : String) : Except Trouble String :=
  match disk.readText path with
  | .ok text => .ok text
  | .error fault => .error ["read script '" ++ path ++ "'", fault.message]

/-- The settings of a run, from a file if one is named. -/
def loadSettings {σ : Type} (world : World σ) (disk : Disk) :
    Option String → Except Trouble Settings
  | none => .ok { workers := world.workers }
  | some path => within ("load config '" ++ path ++ "'") (Settings.load world.workers disk path)

/-- The studio of a run. -/
def openStudio {σ : Type} (world : World σ) (s : Settings) : Except Trouble (Studio σ) :=
  match s.studio world with
  | .ok studio => .ok studio
  | .error failure => .error failure.chain

/-- The first program that rendering needs and that does not answer. -/
def missingProgram? {σ : Type} (world : World σ) (state : σ) : Option String :=
  ["ffmpeg", "ffprobe"].find? fun program => !world.programs.answers program state

/-- Makes the folder of an output file. -/
def makeOutputFolder (out : String) (disk : Disk) : Except Trouble Unit × Disk :=
  match Path.parent? out with
  | none | some "" => (.ok (), disk)
  | some folder =>
    match disk.makeFolders folder with
    | (.ok (), disk) => (.ok (), disk)
    | (.error fault, disk) =>
      (.error ["create output dir '" ++ folder ++ "'", fault.message], disk)

/-- The files of the assets that a task asks for. -/
def assetFiles {σ : Type} (world : World σ) (disk : Disk) : Task → List String
  | .check _ | .key _ _ => []
  | .plan script config | .render script config _ =>
    let found : Except Trouble (List String) := do
      let settings ← loadSettings world disk config
      let lines ← within script (Script.parse (← readScript disk script))
      return (requests lines).map fun r => (settings.store world).pathFor r.key
    found.toOption.getD []

/-- The outcome of a task that ended well. -/
def succeed (output errors : String) (disk : Disk) : Outcome := ⟨0, output, errors, disk⟩

/-- The outcome of a task that failed. -/
def fail (disk : Disk) (trouble : Trouble) : Outcome := ⟨1, "", report trouble, disk⟩

/-- The outcome of a computation on a disk that it leaves as it is. -/
def settle (disk : Disk) : Except Trouble Outcome → Outcome
  | .ok outcome => outcome
  | .error trouble => fail disk trouble

/-- The plan of a script as it is shown: the plan itself and its graph. -/
def planText (plan : MixPlan) (sampleRate : Nat) : String :=
  String.ofList (Saved.tree plan).pretty ++ "\n" ++ plan.filterGraph sampleRate ++ "\n"

/-- The note about a rendered file. -/
def noteText (out : String) (plan : MixPlan) : String :=
  "wrote " ++ out ++ " (" ++ plan.inputs.length.repr ++ " segments, "
    ++ Style.fixed 3 plan.total ++ "s)\n"

/-- Counts the commands of a script. -/
def check (disk : Disk) (script : String) : Except Trouble Outcome := do
  let text ← readScript disk script
  let lines ← within ("parse script '" ++ script ++ "'") (Script.parse text)
  return succeed (lines.length.repr ++ " commands\n") "" disk

variable {σ : Type}

/-- Runs a computation of a studio on a disk. -/
def perform {α : Type} (work : Work Float σ α) (doing : String) (disk : Disk) (state : σ)
    (finish : α → Disk → Outcome) : Outcome :=
  match work ⟨{ disk := disk }, { state := state }⟩ with
  | .ok a s => finish a s.shelf.disk
  | .error failure s => fail s.shelf.disk (doing :: failure.chain)

/-- Compiles a script and shows its plan. -/
def plan (world : World σ) (disk : Disk) (state : σ) (script : String) (config : Option String) :
    Except Trouble Outcome := do
  let text ← readScript disk script
  let settings ← loadSettings world disk config
  let studio ← openStudio world settings
  return perform (studio.compile text) ("compile script '" ++ script ++ "'") disk state
    fun plan disk => succeed (planText plan settings.encoding.sampleRate) "" disk

/-- Compiles a script and renders it. -/
def render (world : World σ) (disk : Disk) (state : σ) (script : String) (config : Option String)
    (out : String) : Except Trouble Outcome := do
  let text ← readScript disk script
  let settings ← loadSettings world disk config
  if let some program := missingProgram? world state then
    throw ["'" ++ program ++ "' not found on PATH"]
  let studio ← openStudio world settings
  match makeOutputFolder out disk with
  | (.error trouble, disk) => return fail disk trouble
  | (.ok (), disk) =>
    return perform (studio.renderScript text out) ("render script '" ++ script ++ "'") disk state
      fun plan disk => succeed "" (noteText out plan) disk

/-- Does a task. -/
def runTask (world : World σ) (disk : Disk) (state : σ) : Task → Outcome
  | .check script => settle disk (check disk script)
  | .plan script config => settle disk (plan world disk state script config)
  | .render script config out => settle disk (render world disk state script config out)
  | .key asset extension => succeed (asset.relativePath extension ++ "\n") "" disk

/-- The name of the program and its version. -/
def versionText : String := "scenemix 0.1.0\n"

/-- How the program is used. -/
def usageText : String :=
  "Usage: scenemix [--verbose] <command>\n\n"
    ++ "  check  --script <file>\n"
    ++ "  plan   --script <file> [--config <file>]\n"
    ++ "  render --script <file> [--config <file>] --out <file>\n"
    ++ "  key    [--namespace voice|sound] [--ext <extension>] <text>\n"

/-- Runs the program. A command line without meaning ends it with status 2. -/
def run (world : World σ) (disk : Disk) (state : σ) (arguments : List String) : Outcome :=
  match Wish.ofArguments? arguments with
  | none => ⟨2, "", usageText, disk⟩
  | some .version => succeed versionText "" disk
  | some .help => succeed usageText "" disk
  | some (.run task) => runTask world disk state task

end Soundstage.Cli
