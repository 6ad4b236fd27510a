import Soundstage.Json.Tree
import Soundstage.Number.Hexadecimal
import Soundstage.Number.Style

/-!
# Writing JSON

Values are written in two layouts: `Tree.compact` without blanks, and `Tree.pretty` with each item
and member on a line of its own, indented by two blanks for each list or record around it.
-/

namespace Soundstage.Json

/-- A character within quotes. Quotes, backslashes and control characters are escaped. -/
def escape (c : Char) : List Char :=
  match c with
  | '"' => ['\\', '"']
  | '\\' => ['\\', '\\']
  | '\x08' => ['\\', 'b']
  | '\x0c' => ['\\', 'f']
  | '\n' => ['\\', 'n']
  | '\r' => ['\\', 'r']
  | '\t' => ['\\', 't']
  | c =>
    if c.toNat < 0x20 then '\\' :: 'u' :: Hexadecimal.fixed 4 c.toNat else [c]

/-- A text within quotes. -/
def quoted (content : Gapped) : List Char :=
  '"' :: content.lossy.flatMap escape ++ ['"']

/-- The value of a double. The numbers that no digits can write are null. -/
def Tree.ofFloat (x : Float) : Tree :=
  if x.isFinite then .number (Style.saved.text x).toList else .null

/-- The value of a count. -/
def Tree.ofNat (n : Nat) : Tree := .number n.repr.toList

/-- The text of a value that has no parts. -/
def Tree.plain : Tree → List Char
  | .null => "null".toList
  | .truth true => "true".toList
  | .truth false => "false".toList
  | .number literal => literal
  | .text content => quoted content
  | .list _ => "[]".toList
  | .record _ => ['{', '}']

mutual

/-- A value without blanks. -/
def Tree.compact : Tree → List Char
  | .list items => '[' :: compactItems items ++ [']']
  | .record members => '{' :: compactMembers members ++ ['}']
  | tree => tree.plain

/-- Items with commas between them. -/
def compactItems : List Tree → List Char
  | [] => []
  | [item] => item.compact
  | item :: rest => item.compact ++ ',' :: compactItems rest

/-- Members with commas between them. -/
def compactMembers : List (Gapped × Tree) → List Char
  | [] => []
  | [(name, value)] => quoted name ++ ':' :: value.compact
  | (name, value) :: rest => quoted name ++ ':' :: value.compact ++ ',' :: compactMembers rest

end

/-- A new line within the given number of lists and records. -/
def newLine (depth : Nat) : List Char := '\n' :: List.replicate (2 * depth) ' '

mutual

/-- A value within the given number of lists and records, with one item or member to a line. -/
def Tree.prettyAt (depth : Nat) : Tree → List Char
  | .list (item :: rest) =>
    '[' :: newLine (depth + 1) ++ prettyItems (depth + 1) (item :: rest) ++ newLine depth ++ [']']
  | .record (member :: rest) =>
    '{' :: newLine (depth + 1) ++ prettyMembers (depth + 1) (member :: rest) ++ newLine depth
      ++ ['}']
  | tree => tree.plain

/-- Items on lines of their own. -/
def prettyItems (depth : Nat) : List Tree → List Char
  | [] => []
  | [item] => item.prettyAt depth
  | item :: rest => item.prettyAt depth ++ ',' :: newLine depth ++ prettyItems depth rest

/-- Members on lines of their own. -/
def prettyMembers (depth : Nat) : List (Gapped × Tree) → List Char
  | [] => []
  | [(name, value)] => quoted name ++ ':' :: ' ' :: value.prettyAt depth
  | (name, value) :: rest =>
    quoted name ++ ':' :: ' ' :: value.prettyAt depth ++ ',' :: newLine depth
      ++ prettyMembers depth rest

end

/-- A value over several lines. -/
def Tree.pretty (tree : Tree) : List Char := tree.prettyAt 0

end Soundstage.Json
