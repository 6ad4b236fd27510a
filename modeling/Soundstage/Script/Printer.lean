import Soundstage.Number.Style
import Soundstage.Script.Parser

/-!
# Writing scripts

A command is written as its keyword, its numbers and its text with single blanks between them.
What is written reads back as the same command if the command `IsPrintable`: its numbers are
valid, and its text fills the rest of a line from its first character to its last.
-/

namespace Soundstage

/-- Texts that stand between the blanks of one line. -/
def Text.IsLineEnd (s : List Char) : Prop :=
  s ≠ [] ∧ (∀ c ∈ s.head?, isBlank c = false) ∧ (∀ c ∈ s.getLast?, isBlank c = false) ∧ '\n' ∉ s

instance (s : List Char) : Decidable (Text.IsLineEnd s) :=
  inferInstanceAs (Decidable (_ ∧ _ ∧ _ ∧ _))

namespace Command

/-- The fields of a command as they are written, in their order. -/
def fields : Command Float → List String
  | voice pan text | backgroundStart pan text => [Style.plain.text pan, text]
  | sound pan duration text => [Style.plain.text pan, Style.plain.text duration, text]
  | backgroundStop text => [text]
  | wait duration => [Style.plain.text duration]

/-- A command as it is written in a script. -/
def line (c : Command Float) : String := " ".intercalate (c.keyword.text :: c.fields)

/-- Commands that are read back from what they are written as. -/
def IsPrintable (c : Command Float) : Prop :=
  c.IsValid ∧ ∀ text ∈ c.text?, Text.IsLineEnd text.toList

end Command

/-- Commands as a script, one to a line. -/
def Script.text (commands : List (Command Float)) : String :=
  "\n".intercalate (commands.map Command.line)

end Soundstage
