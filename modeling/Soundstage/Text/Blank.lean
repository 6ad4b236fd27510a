/-!
# Blank characters

Which characters are blank, and how texts are cut at them. A character is blank if it has the
Unicode property White_Space; this is a larger set than the blanks of core's `Char.isWhitespace`.
-/

namespace Soundstage

/-- The characters with the property White_Space. -/
def isBlank (c : Char) : Bool :=
  let n := c.toNat
  (9 ≤ n && n ≤ 13) || n == 32 || n == 0x85 || n == 0xa0 || n == 0x1680
    || (0x2000 ≤ n && n ≤ 0x200a) || n == 0x2028 || n == 0x2029 || n == 0x202f || n == 0x205f
    || n == 0x3000

namespace Text

/-- Drops blanks at the front. -/
def trimStart (s : List Char) : List Char := s.dropWhile isBlank

/-- Drops blanks at the back. -/
def trimEnd (s : List Char) : List Char := (s.reverse.dropWhile isBlank).reverse

/-- Drops blanks at both ends. -/
def trim (s : List Char) : List Char := trimEnd (trimStart s)

/-- The first word of a text, empty if it has none, and what follows that word. -/
def nextWord (s : List Char) : List Char × List Char :=
  let s := trimStart s
  (s.takeWhile (!isBlank ·), s.dropWhile (!isBlank ·))

/-- The parts of a text between the occurrences of a separator. -/
def pieces {α : Type} [DecidableEq α] (separator : α) : List α → List (List α)
  | [] => [[]]
  | c :: rest =>
    if c = separator then [] :: pieces separator rest
    else match pieces separator rest with
      | [] => [[c]]
      | first :: others => (c :: first) :: others

/-- The maximal runs of characters that are not blank. -/
def words (s : List Char) : List (List Char) :=
  (s.foldr (fun c ws =>
    if isBlank c then [] :: ws
    else match ws with
      | [] => [[c]]
      | w :: rest => (c :: w) :: rest) [[]]).filter (!·.isEmpty)

/-- A text without blanks at its ends. -/
def trimmed (s : String) : String := String.ofList (trim s.toList)

end Text

end Soundstage
