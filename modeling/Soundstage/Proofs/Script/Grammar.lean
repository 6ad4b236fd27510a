import Mathlib
import Soundstage.Script.Parser
import Soundstage.Proofs.Number.Numeral
import Soundstage.Proofs.Number.Plain

/-!
# The grammar of scripts

Which lines write which command, said without a parser. A line is blanks, a keyword and its fields;
a number is a word of its own, whose double is the one that its value is rounded to, and a text runs
from its first character that is not blank to the end of the line. Blanks at the end of a line
belong to its text, except behind a pause, which has none.
-/

namespace Soundstage

open Text

/-- The text writes a number that is rounded to the given double. -/
def WritesFloat (text : List Char) (x : Float) : Prop :=
  ∃ n : Numeral, n.Writes text ∧ Binary64.Rounds n.negative n.size x

/-- A gap and a number in front of `rest`. -/
def WritesNumber (fields : List Char) (x : Float) (rest : List Char) : Prop :=
  ∃ gap number, fields = gap ++ (number ++ rest) ∧ IsGap gap ∧ WritesFloat number x

/-- A gap and a text up to the end of the line. -/
def WritesText (fields : List Char) (text : String) : Prop :=
  ∃ gap, fields = gap ++ text.toList ∧ IsGap gap ∧ IsRest text.toList

namespace Command

/-- The fields of a command behind its keyword. -/
def WritesFields (fields : List Char) : Command Float → Prop
  | voice pan phrase => ∃ rest, WritesNumber fields pan rest ∧ WritesText rest phrase
  | sound pan duration description => ∃ rest rest',
    WritesNumber fields pan rest ∧ WritesNumber rest duration rest' ∧ WritesText rest' description
  | backgroundStart pan description => ∃ rest,
    WritesNumber fields pan rest ∧ WritesText rest description
  | backgroundStop description => WritesText fields description
  | wait duration => ∃ rest, WritesNumber fields duration rest ∧ AreBlanks rest

/-- The numbers of a command. -/
def numbers : Command Float → List Float
  | voice pan _ | backgroundStart pan _ => [pan]
  | sound pan duration _ => [pan, duration]
  | backgroundStop _ => []
  | wait duration => [duration]

/-- The line writes a command. -/
def Writes (line : List Char) (c : Command Float) : Prop :=
  ∃ lead fields, line = lead ++ (c.keyword.text.toList ++ fields) ∧ AreBlanks lead
    ∧ c.WritesFields fields

end Command

end Soundstage
