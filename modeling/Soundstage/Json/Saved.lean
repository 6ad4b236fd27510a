import Soundstage.Json.Reader
import Soundstage.Json.Record
import Soundstage.Json.Writer
import Soundstage.Asset.Key
import Soundstage.Mix.Plan
import Soundstage.Script.Command

/-!
# Saved values

Scripts, timelines and plans as JSON. `Saved` pairs the value that is written with the reader that
takes it back. A command is a record with its kind among its members, or a list that begins with its
kind; all of its parts have to be readable, also those that are skipped.
-/

namespace Soundstage

open Json Json.Tree

/-- Values that can be saved. -/
class Saved (α : Type) where
  /-- The value to be written. -/
  tree : α → Tree
  /-- Takes a value back. -/
  ofTree? : Tree → Option α

namespace Saved

variable {α : Type} [Saved α]

/-- A value as it is saved. -/
def text (a : α) : String := String.ofList (tree a).compact

/-- The value that a text has saved. -/
def read? (text : String) : Option α := (Tree.read? (.ofString text)).bind ofTree?

end Saved

/-! ## Commands -/

namespace Command

/-- The name of the member that tells the commands apart. -/
def kindMember : String := "kind"

/-- How many lists and records may lie within each other around any part of a command. -/
def greatestDepth : Nat := 127

/-- A command as it is saved. -/
def tree : Command Float → Tree
  | voice pan phrase => .ofMembers
    [(kindMember, .ofString "voice"), ("pan", .ofFloat pan), ("phrase", .ofString phrase)]
  | sound pan duration description => .ofMembers
    [(kindMember, .ofString "sound"), ("pan", .ofFloat pan), ("duration_secs", .ofFloat duration),
      ("description", .ofString description)]
  | backgroundStart pan description => .ofMembers
    [(kindMember, .ofString "background_start"), ("pan", .ofFloat pan),
      ("description", .ofString description)]
  | backgroundStop description => .ofMembers
    [(kindMember, .ofString "background_stop"), ("description", .ofString description)]
  | wait duration => .ofMembers
    [(kindMember, .ofString "wait"), ("secs", .ofFloat duration)]

/-- The kind of a saved command, and the record or list of its other parts. -/
def kindAndBody? : Tree → Option (Tree × Tree)
  | .record members => do
    let kind ← (← only? kindMember (← named? members))
    return (kind, .record (members.filter fun m => m.1 ≠ .ofString kindMember))
  | .list (kind :: rest) => some (kind, .list rest)
  | _ => none

/-- The command of a kind with the given parts. -/
def ofBody? (kind : String) (body : Tree) : Option (Command Float) :=
  match kind with
  | "voice" => do
    let [pan, phrase] ← body.members? ["pan", "phrase"] false | none
    return .voice (← Member.required float? pan) (← Member.required string? phrase)
  | "sound" => do
    let [pan, duration, description] ←
      body.members? ["pan", "duration_secs", "description"] false | none
    return .sound (← Member.required float? pan) (← Member.required float? duration)
      (← Member.required string? description)
  | "background_start" => do
    let [pan, description] ← body.members? ["pan", "description"] false | none
    return .backgroundStart (← Member.required float? pan) (← Member.required string? description)
  | "background_stop" => do
    let [description] ← body.members? ["description"] false | none
    return .backgroundStop (← Member.required string? description)
  | "wait" => do
    let [duration] ← body.members? ["secs"] false | none
    return .wait (← Member.required float? duration)
  | _ => none

/-- The command that is saved within the given number of lists and records. -/
def ofTree? (around : Nat) (saved : Tree) : Option (Command Float) := do
  if !saved.isReadable (greatestDepth - around) then none
  else
    let (kind, body) ← kindAndBody? saved
    ofBody? (← kind.string?) body

instance : Saved (Command Float) := ⟨tree, ofTree? 0⟩

end Command

/-- The bound of line numbers and other counts. -/
def countBound : Nat := 0x10000000000000000

instance : Saved (ScriptLine Float) where
  tree l := .ofMembers [("line", .ofNat l.line), ("command", l.command.tree)]
  ofTree? saved := do
    let [line, command] ← saved.members? ["line", "command"] false | none
    return ⟨← Member.required (count? countBound) line,
      ← Member.required (Command.ofTree? 1) command⟩

/-! ## Timelines and plans -/

instance : Saved (Segment Float) where
  tree s := .ofMembers
    [("source_path", .ofString s.path), ("start_secs", .ofFloat s.start),
      ("duration_secs", .ofFloat s.duration), ("pan", .ofFloat s.pan)]
  ofTree? saved := do
    let [path, start, duration, pan] ←
      saved.members? ["source_path", "start_secs", "duration_secs", "pan"] false | none
    return ⟨← Member.required string? path, ← Member.required float? start,
      ← Member.required float? duration, ← Member.required float? pan⟩

/-- The reader of a list of saved values. -/
def Saved.list? {α : Type} [Saved α] : Tree → Option (List α) := items? Saved.ofTree?

instance : Saved (Timeline Float) where
  tree t := .ofMembers
    [("total_duration_secs", .ofFloat t.total), ("segments", .list (t.segments.map Saved.tree))]
  ofTree? saved := do
    let [total, segments] ← saved.members? ["total_duration_secs", "segments"] false | none
    return ⟨← Member.required float? total, ← Member.required Saved.list? segments⟩

instance : Saved MixPlan where
  tree p := .ofMembers
    [("total_duration_secs", .ofFloat p.total), ("inputs", .list (p.inputs.map Saved.tree))]
  ofTree? saved := do
    let [total, inputs] ← saved.members? ["total_duration_secs", "inputs"] false | none
    return ⟨← Member.required float? total, ← Member.required Saved.list? inputs⟩

/-! ## Roles -/

/-- A role is saved as its name, and read also as the only member of a record, if that is null. -/
instance : Saved Role where
  tree role := .ofString role.name
  ofTree?
    | .text name => (Gapped.text? name).bind Role.ofName?
    | .record [(name, .null)] => (Gapped.text? name).bind Role.ofName?
    | _ => none

end Soundstage
