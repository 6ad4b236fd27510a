import Soundstage.Text.Gapped

/-!
# JSON values

A `Tree` is a JSON value with its numbers as they are written, so that the reader of a value
decides what a number is read as, and with its texts as they can be read, so that a text that is
never looked at may have gaps. Members keep their order, and a name may occur twice.
-/

namespace Soundstage.Json

/-- A JSON value. -/
inductive Tree where
  | null
  | truth (value : Bool)
  | number (literal : List Char)
  | text (content : Gapped)
  | list (items : List Tree)
  | record (members : List (Gapped × Tree))
  deriving Inhabited

/-- The value of a string. -/
def Tree.ofString (s : String) : Tree := .text (.ofString s)

/-- The value of a string that may be absent. -/
def Tree.ofOption (s : Option String) : Tree := (s.map Tree.ofString).getD .null

/-- A record with the given members. -/
def Tree.ofMembers (members : List (String × Tree)) : Tree :=
  .record (members.map fun (name, value) => (.ofString name, value))

end Soundstage.Json
