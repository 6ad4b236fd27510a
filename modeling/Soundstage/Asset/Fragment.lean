import Soundstage.Asset.Key

/-!
# Fragments in stages

What the readable part of a file name is, said in one stage after the other over the whole text
instead of character by character. `IsFragment` is the form in which a fragment is written: words of
lowercase letters and digits with single dashes between them.
-/

namespace Soundstage

namespace AssetKey

/-- Keeps ASCII letters, in lowercase, and digits; each run of other characters becomes one dash. -/
def dashed (text : List Char) : List Char :=
  text.foldr (fun c rest =>
    if isKept c then c.toLower :: rest
    else if rest.head? = some '-' then rest else '-' :: rest) []

/-- Drops the dashes at the end. -/
def dropLastDashes (s : List Char) : List Char := (s.reverse.dropWhile (· = '-')).reverse

/-- Drops the dashes at both ends. -/
def trimDashes (s : List Char) : List Char := dropLastDashes (s.dropWhile (· = '-'))

/-- A fragment in stages: dashes for all that is not kept, none of them at the ends, at most as many
characters as the limit, and a name for what has none. -/
def stagedFragment (text : String) : List Char :=
  match dropLastDashes ((trimDashes (dashed text.toList)).take fragmentLimit) with
  | [] => "asset".toList
  | fragment => fragment

/-- A word of a fragment: lowercase ASCII letters and digits, at least one. -/
def IsWord (s : List Char) : Prop := s ≠ [] ∧ ∀ c ∈ s, c.isLower = true ∨ c.isDigit = true

/-- At least one word, with single dashes between words. -/
def IsFragment (s : List Char) : Prop :=
  ∃ words : List (List Char), words ≠ [] ∧ (∀ w ∈ words, IsWord w) ∧ s = ['-'].intercalate words

end AssetKey

end Soundstage
