import Soundstage.Json.Token

/-!
# The spelling of texts in JSON

Between its quotes a text is spelled piece by piece: a character stands for itself or is escaped,
and a control character, a quote or a backslash has to be escaped. `Spells` says so without a
reader, and `pieces_eq_some_iff` that a text token is taken apart exactly up to the quote behind a
spelling.
-/

namespace Soundstage.Json

open Token

/-- The ways in which one piece of a text is spelled. -/
inductive SpellsPiece : Gapped → Piece → Prop
  /-- What stands for no character is kept as a gap. -/
  | gap : SpellsPiece [none] (.char none)
  | verbatim {c : Char} (hquote : c ≠ '"') (hslash : c ≠ '\\') (hcontrol : ¬ c.toNat < 0x20) :
      SpellsPiece [some c] (.char (some c))
  | escape {letter c : Char} (h : escaped? letter = some c) :
      SpellsPiece [some '\\', some letter] (.char (some c))
  /-- A unit by its number in four hexadecimal digits. -/
  | unit {digits : Gapped} {n : Nat} (hlength : digits.length = 4)
      (h : hexValue? digits = some n) : SpellsPiece (some '\\' :: some 'u' :: digits) (.unit n)

/-- A text is spelled by its pieces one after the other. -/
inductive Spells : Gapped → List Piece → Prop
  | nil : Spells [] []
  | cons {front rest : Gapped} {p : Piece} {ps : List Piece} (hpiece : SpellsPiece front p)
      (hrest : Spells rest ps) : Spells (front ++ rest) (p :: ps)

variable {text front rest : Gapped} {p : Piece} {ps : List Piece} {length : Nat}

theorem SpellsPiece.ne_nil (h : SpellsPiece front p) : front ≠ [] := by
  cases h <;> exact List.cons_ne_nil _ _

theorem next?_verbatim {c : Char} (hquote : c ≠ '"') (hslash : c ≠ '\\')
    (hcontrol : ¬ c.toNat < 0x20) (rest : Gapped) :
    next? (some c :: rest) = some (.piece (.char (some c)) 1) := by
  unfold next?
  split <;> simp_all

theorem next?_escape {letter c : Char} (h : escaped? letter = some c) (rest : Gapped) :
    next? (some '\\' :: some letter :: rest) = some (.piece (.char (some c)) 2) := by
  unfold escaped? at h
  split at h <;> cases h <;> rfl

theorem next?_unit {digits : Gapped} {n : Nat} (hlength : digits.length = 4)
    (h : hexValue? digits = some n) (rest : Gapped) :
    next? (some '\\' :: some 'u' :: (digits ++ rest)) = some (.piece (.unit n) 6) := by
  have htake : (digits ++ rest).take 4 = digits := List.take_left' hlength
  simp only [next?, htake, hlength, h, Nat.lt_irrefl, ↓reduceIte, Option.map_some]

/-- The next piece is found by its spelling. -/
theorem SpellsPiece.next?_eq (h : SpellsPiece front p) (rest : Gapped) :
    next? (front ++ rest) = some (.piece p front.length) := by
  cases h with
  | gap => rfl
  | verbatim hquote hslash hcontrol => exact next?_verbatim hquote hslash hcontrol rest
  | escape h => exact next?_escape h rest
  | unit hlength h =>
      rw [List.length_cons, List.length_cons, hlength]
      exact next?_unit hlength h rest

/-- What is found next is spelled in one of the ways. -/
theorem exists_spellsPiece (h : next? text = some (.piece p length)) :
    ∃ front rest, text = front ++ rest ∧ front.length = length ∧ SpellsPiece front p := by
  unfold next? at h
  split at h
  · cases h
  · next rest =>
    cases h
    exact ⟨[none], rest, rfl, rfl, .gap⟩
  · cases h
  · next rest =>
    dsimp only at h
    split at h
    · cases h
    · next hlength =>
      obtain ⟨n, hn, hfound⟩ := Option.map_eq_some_iff.mp h
      cases hfound
      have hfour : (rest.take 4).length = 4 := by
        have hle := List.length_take_le 4 rest
        omega
      exact ⟨some '\\' :: some 'u' :: rest.take 4, rest.drop 4,
        by rw [List.cons_append, List.cons_append, List.take_append_drop],
        by rw [List.length_cons, List.length_cons, hfour], .unit hfour hn⟩
  · next letter rest _ =>
    obtain ⟨c, hc, hfound⟩ := Option.map_eq_some_iff.mp h
    cases hfound
    exact ⟨[some '\\', some letter], rest, rfl, rfl, .escape hc⟩
  · cases h
  · next c rest hquote _ _ hslash =>
    split at h
    · cases h
    · next hcontrol =>
      cases h
      exact ⟨[some c], rest, rfl, rfl, .verbatim (fun heq => hquote (by rw [heq]))
        (fun heq => hslash (by rw [heq])) hcontrol⟩

theorem next?_eq_finish (h : next? text = some .finish) : ∃ rest, text = some '"' :: rest := by
  unfold next? at h
  split at h
  · cases h
  · cases h
  · next rest => exact ⟨rest, rfl⟩
  · dsimp only at h
    split at h
    · cases h
    · obtain ⟨n, -, hfound⟩ := Option.map_eq_some_iff.mp h
      cases hfound
  · obtain ⟨c, -, hfound⟩ := Option.map_eq_some_iff.mp h
    cases hfound
  · cases h
  · split at h <;> cases h

/-- The characters that belong to a piece found before them are passed over. -/
theorem pieces_skip (front rest : Gapped) :
    pieces front.length (front ++ rest) =
      (pieces 0 rest).map fun (ps, n) => (ps, n + front.length) := by
  induction front with
  | nil => simp
  | cons c front ih =>
    simp only [List.length_cons, List.cons_append, pieces, ih, Option.map_map]
    congr 1

/-- The pieces of a text begin with the one that its front spells. -/
theorem SpellsPiece.pieces_append (h : SpellsPiece front p) (rest : Gapped) :
    pieces 0 (front ++ rest) =
      (pieces 0 rest).map fun (ps, n) => (p :: ps, n + front.length) := by
  have hnext := h.next?_eq rest
  obtain ⟨c, others, rfl⟩ := List.exists_cons_of_ne_nil h.ne_nil
  have hskip := pieces_skip others rest
  rw [List.cons_append, List.length_cons] at hnext ⊢
  simp only [pieces, hnext, Nat.add_sub_cancel, hskip, Option.map_map]
  congr 1

theorem Spells.pieces_append (h : Spells front ps) (rest : Gapped) :
    pieces 0 (front ++ some '"' :: rest) = some (ps, front.length + 1) := by
  induction h with
  | nil => rfl
  | @cons front others p ps hpiece _ ih =>
    have hlength : others.length + 1 + front.length = (front ++ others).length + 1 := by
      rw [List.length_append]
      omega
    rw [List.append_assoc, hpiece.pieces_append, ih, Option.map_some, ← hlength]

/-- The pieces that are found spell what stands in front of the closing quote. The induction is on
the length of the text, since a piece may take up several characters. -/
theorem exists_spells (h : pieces 0 text = some (ps, length)) :
    ∃ front rest, text = front ++ some '"' :: rest ∧ length = front.length + 1 ∧
      Spells front ps := by
  induction hsize : text.length using Nat.strongRecOn generalizing text ps length with
  | ind size ih =>
    cases text with
    | nil => cases h
    | cons c text =>
      cases hnext : next? (c :: text) with
      | none => simp [pieces, hnext] at h
      | some found =>
        cases found with
        | finish =>
          obtain ⟨rest, hrest⟩ := next?_eq_finish hnext
          simp only [pieces, hnext, Option.some.injEq, Prod.mk.injEq] at h
          obtain ⟨rfl, rfl⟩ := h
          exact ⟨[], rest, hrest, rfl, .nil⟩
        | piece p taken =>
          obtain ⟨front, rest, hsplit, -, hpiece⟩ := exists_spellsPiece hnext
          rw [hsplit, hpiece.pieces_append] at h
          obtain ⟨⟨others, n⟩, hothers, heq⟩ := Option.map_eq_some_iff.mp h
          cases heq
          have hlt : rest.length < size := by
            have hpos := List.length_pos_iff.mpr hpiece.ne_nil
            rw [← hsize, hsplit, List.length_append]
            omega
          obtain ⟨body, behind, hrest, hlength, hspells⟩ := ih rest.length hlt hothers rfl
          refine ⟨front ++ body, behind, ?_, ?_, .cons hpiece hspells⟩
          · rw [hsplit, hrest, List.append_assoc]
          · rw [List.length_append, hlength]
            omega

/-- A text token is taken apart exactly up to the quote behind the spelling of its pieces. -/
theorem pieces_eq_some_iff : pieces 0 text = some (ps, length) ↔
    ∃ front rest, text = front ++ some '"' :: rest ∧ length = front.length + 1 ∧
      Spells front ps := by
  constructor
  · exact exists_spells
  · rintro ⟨front, rest, rfl, rfl, hspells⟩
    exact hspells.pieces_append rest

end Soundstage.Json
