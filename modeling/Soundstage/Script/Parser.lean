import Soundstage.Number.Numeral
import Soundstage.Script.Command
import Soundstage.Text.Blank

/-!
# Reading scripts

A line of a script is a keyword followed by the fields of its command: numbers, each a word of its
own, and at the end a text that runs to the end of the line. `Command.parse` reads one line,
`Script.parse` a whole script, in which blank lines count but hold no command.
-/

namespace Soundstage

/-- The words that commands begin with. -/
inductive Keyword where
  | voice
  | sound
  | bgstart
  | bgstop
  | wait
  deriving DecidableEq, Repr

namespace Keyword

/-- How a keyword is written. -/
def text : Keyword → String
  | voice => "voice"
  | sound => "sound"
  | bgstart => "bgstart"
  | bgstop => "bgstop"
  | wait => "wait"

/-- All keywords, in the order in which they are tried. -/
def all : List Keyword := [voice, sound, bgstart, bgstop, wait]

end Keyword

/-- The keyword that a command is written with. -/
def Command.keyword {R : Type} : Command R → Keyword
  | .voice .. => .voice
  | .sound .. => .sound
  | .backgroundStart .. => .bgstart
  | .backgroundStop .. => .bgstop
  | .wait .. => .wait

/-- Why a line is not a command. -/
inductive Mismatch where
  /-- The first word is no keyword. -/
  | unknownCommand (word : String)
  /-- The line ends where a number is due. -/
  | numberMissing (keyword : Keyword) (field : String)
  /-- Another word stands where a number is due. -/
  | notNumber (keyword : Keyword) (field word : String)
  /-- The line ends where a text is due. -/
  | textMissing (keyword : Keyword) (field : String)
  /-- The line goes on where it is due to end. -/
  | trailingText (keyword : Keyword) (text : String)
  deriving DecidableEq, Repr

/-- The text of a mismatch. -/
def Mismatch.message : Mismatch → String
  | unknownCommand word => "unknown command '" ++ word ++ "'"
  | numberMissing keyword field => keyword.text ++ " expects <" ++ field ++ ":number>"
  | notNumber keyword field word =>
    keyword.text ++ " expects <" ++ field ++ ":number>, got '" ++ word ++ "'"
  | textMissing keyword field => keyword.text ++ " expects <" ++ field ++ ":text>"
  | trailingText keyword text => keyword.text ++ " has unexpected trailing text '" ++ text ++ "'"

namespace Field

/-- Reads the next word as a number. -/
def number (keyword : Keyword) (field : String) (text : List Char) :
    Except Mismatch (Float × List Char) :=
  let (word, rest) := Text.nextWord text
  if word.isEmpty then .error (.numberMissing keyword field)
  else match Numeral.ofPlain? word with
    | none => .error (.notNumber keyword field (String.ofList word))
    | some numeral => .ok (numeral.toFloat, rest)

/-- Reads the rest of a line, from its first character that is not blank. -/
def text (keyword : Keyword) (field : String) (text : List Char) : Except Mismatch String :=
  let rest := Text.trimStart text
  if rest.isEmpty then .error (.textMissing keyword field) else .ok (String.ofList rest)

/-- Makes sure that only blanks are left. -/
def finish (keyword : Keyword) (text : List Char) : Except Mismatch Unit :=
  let rest := Text.trimStart text
  if rest.isEmpty then .ok () else .error (.trailingText keyword (String.ofList rest))

end Field

/-- Reads the fields that follow a keyword. -/
def Keyword.parseFields (keyword : Keyword) (fields : List Char) :
    Except Mismatch (Command Float) :=
  match keyword with
  | .voice => do
    let (pan, rest) ← Field.number keyword "pan" fields
    return .voice pan (← Field.text keyword "phrase" rest)
  | .sound => do
    let (pan, rest) ← Field.number keyword "pan" fields
    let (duration, rest) ← Field.number keyword "duration" rest
    return .sound pan duration (← Field.text keyword "description" rest)
  | .bgstart => do
    let (pan, rest) ← Field.number keyword "pan" fields
    return .backgroundStart pan (← Field.text keyword "description" rest)
  | .bgstop => return .backgroundStop (← Field.text keyword "description" fields)
  | .wait => do
    let (duration, rest) ← Field.number keyword "duration" fields
    Field.finish keyword rest
    return .wait duration

/-- Reads a line by the rule of one keyword; nothing if the line begins with another word. -/
def Keyword.match? (keyword : Keyword) (line : List Char) :
    Option (Except Mismatch (Command Float)) :=
  let (word, fields) := Text.nextWord line
  if keyword.text.toList = word then some (keyword.parseFields fields) else none

/-- Reads a line by the first of some rules that fits. If none does, the reason is the first one
that a rule has given, of those tried before or of these. -/
def Command.readBy (line : List Char) (reason : Option Mismatch) :
    List Keyword → Except Mismatch (Command Float)
  | [] => .error (reason.getD (.unknownCommand (String.ofList (Text.nextWord line).1)))
  | keyword :: rules =>
    match keyword.match? line with
    | none => readBy line reason rules
    | some (.ok command) => .ok command
    | some (.error mismatch) => readBy line (reason.or (some mismatch)) rules

/-- Reads one line as a command. -/
def Command.read (line : List Char) : Except Mismatch (Command Float) :=
  Command.readBy line none Keyword.all

/-- Reads the line with the given number as a command; its numbers are not checked. -/
def Command.parse (line : List Char) (number : Nat) : Except (Failure Float) (Command Float) :=
  match Command.read line with
  | .ok command => .ok command
  | .error mismatch => .error (.malformedLine number mismatch.message (String.ofList line))

namespace Script

/-- Reads the line with the given number without the blanks at its ends; a blank line holds
nothing. The numbers of the command are checked. -/
def parseLine (line : List Char) (number : Nat) :
    Except (Failure Float) (Option (ScriptLine Float)) := do
  let line := Text.trim line
  if line.isEmpty then return none
  let command ← Command.parse line number
  command.check number
  return some ⟨number, command⟩

/-- Reads lines whose first one has the given number, up to the first one that is refused. -/
def parseLines (number : Nat) : List (List Char) → Except (Failure Float) (List (ScriptLine Float))
  | [] => .ok []
  | line :: rest => do
    let found ← parseLine line number
    let others ← parseLines (number + 1) rest
    return found.toList ++ others

/-- Reads a script. Its lines are what line feeds separate, counted from one; a carriage return in
front of a line feed is a blank like any other. -/
def parse (text : String) : Except (Failure Float) (List (ScriptLine Float)) :=
  parseLines 1 (Text.pieces '\n' text.toList)

end Script

end Soundstage
