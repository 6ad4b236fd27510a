/-!
# Texts with gaps

Foreign bytes and escapes need not stand for characters. A `Gapped` text keeps its characters and
has a gap wherever something stood that is none. Only a text without gaps can be read as a string.
-/

namespace Soundstage

/-- Characters, and a gap in place of each piece that stands for no character. -/
abbrev Gapped := List (Option Char)

namespace Gapped

/-- A string has no gaps. -/
def ofString (s : String) : Gapped := s.toList.map some

/-- The string of a text without gaps. -/
def text? (t : Gapped) : Option String := (t.mapM id).map String.ofList

/-- The characters of a text, with U+FFFD for each gap. -/
def lossy (t : Gapped) : List Char := t.map (·.getD '\uFFFD')

end Gapped

end Soundstage
