import Soundstage.Json.Writer
import Soundstage.Proofs.Json.Lexical

/-!
# Quoted texts

A quoted text is spelled by one piece for each of its characters, and the pieces join to the same
characters. No piece of a quoted text is half of a character: a unit is only written for a control
character.
-/

namespace Soundstage.Json

open Token

theorem hexValue?_fixed : ∀ n < 0x20, hexValue? ((Hexadecimal.fixed 4 n).map some) = some n := by
  decide

/-- A unit that is no half of a character is a character, whatever follows it. -/
theorem join_unit {n : Nat} (h : n < 0xd800) (ps : List Piece) :
    join (.unit n :: ps) = some (Char.ofNat n) :: join ps := by
  have hhigh : isHighHalf n = false := by simp only [isHighHalf]; grind
  have hlow : isLowHalf n = false := by simp only [isLowHalf]; grind
  match ps with
  | [] => simp [join, hhigh, hlow]
  | .char _ :: _ => simp [join, hhigh, hlow]
  | .unit _ :: _ => simp [join, hhigh, hlow]

/-- A written character spells one piece, which stands for the character. -/
theorem exists_spellsPiece_escape (c : Char) :
    ∃ p, SpellsPiece ((escape c).map some) p ∧ ∀ ps, join (p :: ps) = some c :: join ps := by
  unfold escape
  split
  case h_8 _ hquote hslash _ _ _ _ _ =>
    split
    case isTrue hcontrol =>
      refine ⟨.unit c.toNat, ?_, fun ps => ?_⟩
      · exact .unit (by simp [Hexadecimal.fixed]) (hexValue?_fixed c.toNat hcontrol)
      · rw [join_unit (by omega), Char.ofNat_toNat]
    case isFalse hcontrol =>
      exact ⟨.char (some c), .verbatim hquote hslash hcontrol, fun _ => rfl⟩
  all_goals exact ⟨.char (some _), .escape rfl, fun _ => rfl⟩

/-- The body of a quoted text spells its characters. -/
theorem exists_spells_flatMap_escape (chars : List Char) :
    ∃ ps, join ps = chars.map some ∧ Spells ((chars.flatMap escape).map some) ps := by
  induction chars with
  | nil => exact ⟨[], rfl, .nil⟩
  | cons c chars ih =>
    obtain ⟨ps, hjoin, hspells⟩ := ih
    obtain ⟨p, hpiece, hp⟩ := exists_spellsPiece_escape c
    refine ⟨p :: ps, by rw [hp, hjoin, List.map_cons], ?_⟩
    rw [List.flatMap_cons, List.map_append]
    exact .cons hpiece hspells

/-- A quoted text is the lexeme of its characters. -/
theorem lexeme_quoted (chars : List Char) :
    Lexeme ((quoted (chars.map some)).map some) (.text (chars.map some)) := by
  obtain ⟨ps, hjoin, hspells⟩ := exists_spells_flatMap_escape chars
  rw [quoted, lossy_map_some, ← hjoin]
  simpa using Lexeme.text hspells

end Soundstage.Json
