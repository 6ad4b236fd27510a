import Soundstage.Json.Literal
import Soundstage.Json.Tree

/-!
# Reading saved values

How the parts of a value are read from JSON. A record is read by the names of its members: those
with other names are skipped whatever they hold, and none of its own may occur twice. A list of
the values of its members, in the order of their names, is read as the record too.
-/

namespace Soundstage.Json

namespace Tree

/-- A text. -/
def string? : Tree → Option String
  | .text content => content.text?
  | _ => none

/-- A double. -/
def float? : Tree → Option Float
  | .number literal => (Literal.ofText? literal).bind Literal.float?
  | _ => none

/-- A count below a bound. -/
def count? (bound : Nat) : Tree → Option Nat
  | .number literal => (Literal.ofText? literal).bind (Literal.count? bound)
  | _ => none

/-- A list whose items are read one by one. -/
def items? {α : Type} (read? : Tree → Option α) : Tree → Option (List α)
  | .list items => items.mapM read?
  | _ => none

/-- Members with their names as strings. -/
def named? (members : List (Gapped × Tree)) : Option (List (String × Tree)) :=
  members.mapM fun (name, value) => (Gapped.text? name).map (·, value)

/-- The value of the only member with a name, where no member has it nothing. -/
def only? (name : String) (members : List (String × Tree)) : Option (Option Tree) :=
  match members.filter (·.1 = name) with
  | [] => some none
  | [(_, value)] => some (some value)
  | _ => none

/-- The values of the members of a record, in the order of the given names. A list in place of the
record is read up to its end, which has to be the last name unless `mayStop` is set. -/
def members? (names : List String) (mayStop : Bool) : Tree → Option (List (Option Tree))
  | .record members => do
    let members ← named? members
    names.mapM fun name => only? name members
  | .list items =>
    if items.length = names.length ∨ (mayStop ∧ items.length < names.length) then
      some (items.map some ++ List.replicate (names.length - items.length) none)
    else none
  | _ => none

end Tree

namespace Member

variable {α : Type} (read? : Tree → Option α)

/-- A member that has to be there. -/
def required (member : Option Tree) : Option α := member.bind read?

/-- A member with a value to be taken where it is absent. -/
def orElse (absent : α) : Option Tree → Option α
  | none => some absent
  | some value => read? value

/-- A member that may be absent or null. -/
def optional : Option Tree → Option (Option α)
  | none | some .null => some none
  | some value => (read? value).map some

end Member

mutual

/-- Whether every part of a value can be read, with at most `depth` lists and records within each
other. -/
def Tree.isReadable (depth : Nat) : Tree → Bool
  | .null | .truth _ => true
  | .number literal => ((Literal.ofText? literal).bind Literal.float?).isSome
  | .text content => content.all Option.isSome
  | .list items => 0 < depth && areReadable (depth - 1) items
  | .record members => 0 < depth && membersAreReadable (depth - 1) members

/-- Whether every item can be read. -/
def areReadable (depth : Nat) : List Tree → Bool
  | [] => true
  | item :: rest => item.isReadable depth && areReadable depth rest

/-- Whether the name and the value of every member can be read. -/
def membersAreReadable (depth : Nat) : List (Gapped × Tree) → Bool
  | [] => true
  | (name, value) :: rest =>
    name.all Option.isSome && value.isReadable depth && membersAreReadable depth rest

end

end Soundstage.Json
