import Soundstage.Number.Hexadecimal
import Soundstage.Text.Shape

/-!
# Quoted texts

How a text is shown in a description of settings: within quotes, with quotes, backslashes and the
common control characters escaped by a letter, and every other character without a shape of its own
by its number.
-/

namespace Soundstage.Text

/-- A character within quotes. -/
def quotedChar (c : Char) : List Char :=
  match c with
  | '"' => ['\\', '"']
  | '\\' => ['\\', '\\']
  | '\x00' => ['\\', '0']
  | '\t' => ['\\', 't']
  | '\n' => ['\\', 'n']
  | '\r' => ['\\', 'r']
  | c => if isShapeless c then '\\' :: 'u' :: '{' :: Hexadecimal.text c.toNat ++ ['}'] else [c]

/-- A text within quotes. -/
def quoted (s : String) : String :=
  String.ofList ('"' :: s.toList.flatMap quotedChar ++ ['"'])

end Soundstage.Text
