import Soundstage.Json.Token
import Soundstage.Json.Tree

/-!
# Reading JSON

`Tree.ofTokens?` builds a value from tokens, one token at a time. Between two tokens the reader is
in a `State`: the lists and records it stands in, innermost first, and what is due next. The
nesting of a value is not limited here.
-/

namespace Soundstage.Json

/-- A list or record that has been begun. Its contents are kept latest first. -/
inductive Frame where
  | list (items : List Tree)
  /-- A record with the name of the member whose value is due. -/
  | record (members : List (Gapped × Tree)) (name : Gapped)

/-- What is due next. -/
inductive State where
  /-- A value. -/
  | value (frames : List Frame)
  /-- The first item of a list, or its end. -/
  | listStart (frames : List Frame)
  /-- The first name of a record, or its end. -/
  | recordStart (frames : List Frame)
  /-- The next name of a record. -/
  | name (members : List (Gapped × Tree)) (frames : List Frame)
  /-- The colon between a name and its value. -/
  | colon (members : List (Gapped × Tree)) (name : Gapped) (frames : List Frame)
  /-- A value is complete: a comma or the end of what it stands in. -/
  | after (tree : Tree) (frames : List Frame)

namespace State

/-- Takes a token where a value is due. -/
def value? (frames : List Frame) : Token → Option State
  | .null => some (.after .null frames)
  | .truth b => some (.after (.truth b) frames)
  | .number literal => some (.after (.number literal) frames)
  | .text content => some (.after (.text content) frames)
  | .listStart => some (.listStart frames)
  | .recordStart => some (.recordStart frames)
  | _ => none

/-- Takes a token after a complete value. -/
def after? (tree : Tree) : List Frame → Token → Option State
  | .list items :: frames, .comma => some (.value (.list (tree :: items) :: frames))
  | .list items :: frames, .listEnd => some (.after (.list (tree :: items).reverse) frames)
  | .record members key :: frames, .comma => some (.name ((key, tree) :: members) frames)
  | .record members key :: frames, .recordEnd =>
    some (.after (.record ((key, tree) :: members).reverse) frames)
  | _, _ => none

/-- Takes one token. -/
def step? : State → Token → Option State
  | value frames, token => value? frames token
  | listStart frames, .listEnd => some (.after (.list []) frames)
  | listStart frames, token => value? (.list [] :: frames) token
  | recordStart frames, .recordEnd => some (.after (.record []) frames)
  | recordStart frames, .text content => some (.colon [] content frames)
  | name members frames, .text content => some (.colon members content frames)
  | colon members key frames, .colon => some (.value (.record members key :: frames))
  | after tree frames, token => after? tree frames token
  | _, _ => none

end State

namespace Tree

/-- The value that tokens write. -/
def ofTokens? (tokens : List Token) : Option Tree :=
  match tokens.foldlM State.step? (.value []) with
  | some (.after tree []) => some tree
  | _ => none

/-- The value that a text writes. -/
def read? (text : Gapped) : Option Tree := (Token.scan text).bind ofTokens?

end Tree

end Soundstage.Json
