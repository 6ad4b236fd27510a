import Mathlib.Data.List.Basic
import Soundstage.Proofs.Text.Pieces
import Soundstage.Proofs.Text.Word

/-!
# Blanks around the lines of a text

Trimming forgets the blanks at the ends of a line, `trim_pad`. The lines of a text may be padded
with blanks that are no line feeds, and they are still its lines; a carriage return in front of each
line feed is such a padding.
-/

namespace Soundstage

namespace Text

section Trim

variable {s lead trail line : List Char}

theorem trimStart_append_left (hlead : AreBlanks lead) (s : List Char) :
    trimStart (lead ++ s) = trimStart s :=
  List.dropWhile_append_of_pos hlead

theorem trimEnd_append_right (htrail : AreBlanks trail) (s : List Char) :
    trimEnd (s ++ trail) = trimEnd s := by
  have hreverse : ∀ c ∈ trail.reverse, isBlank c = true :=
    fun c hc => htrail c (List.mem_reverse.mp hc)
  rw [trimEnd, trimEnd, List.reverse_append, List.dropWhile_append_of_pos hreverse]

/-- Blanks around a line are not seen once it is trimmed. -/
theorem trim_pad (hlead : AreBlanks lead) (htrail : AreBlanks trail) (line : List Char) :
    trim (lead ++ (line ++ trail)) = trim line := by
  rw [trim, trim, trimStart_append_left hlead]
  obtain ⟨front, hline, hfront, hrest⟩ := exists_trimStart line
  rcases hrest with hnil | hrest
  · rw [hnil, List.append_nil] at hline
    have hall : AreBlanks (line ++ trail) := by
      intro c hc
      rcases List.mem_append.mp hc with hmem | hmem
      · exact hfront c (hline ▸ hmem)
      · exact htrail c hmem
    rw [trimStart_of_areBlanks hall, hnil]
  · have hstart : trimStart (line ++ trail) = trimStart line ++ trail := by
      obtain ⟨c, rest, hcons, hc⟩ := hrest
      have hstays : IsRest (trimStart line ++ trail) := ⟨c, rest ++ trail, by rw [hcons]; rfl, hc⟩
      conv => lhs; rw [hline, List.append_assoc]
      exact trimStart_append hfront hstays
    rw [hstart, trimEnd_append_right htrail]

end Trim

section Lines

variable {α : Type} [DecidableEq α] {separator : α}

/-- A text has one piece more than separators. -/
theorem length_pieces (text : List α) :
    (pieces separator text).length = text.count separator + 1 := by
  induction text with
  | nil => rfl
  | cons c rest ih =>
      by_cases hc : c = separator
      · simp [pieces, hc, ih]
      · cases hp : pieces separator rest with
        | nil => exact absurd hp (pieces_ne_nil rest)
        | cons first others =>
            rw [hp] at ih
            simpa [pieces, hc, hp] using ih

end Lines

/-- A line with blanks at its ends, none of which is a line feed. -/
def IsPadded (line padded : List Char) : Prop :=
  ∃ lead trail, padded = lead ++ (line ++ trail) ∧ AreBlanks lead ∧ AreBlanks trail ∧
    '\n' ∉ lead ∧ '\n' ∉ trail

section Padded

variable {line padded : List Char} {lines lines' : List (List Char)}

theorem IsPadded.trim_eq (h : IsPadded line padded) : trim padded = trim line := by
  obtain ⟨lead, trail, rfl, hlead, htrail, -, -⟩ := h
  exact trim_pad hlead htrail line

theorem IsPadded.not_mem (h : IsPadded line padded) (hline : '\n' ∉ line) : '\n' ∉ padded := by
  obtain ⟨lead, trail, rfl, -, -, hlead, htrail⟩ := h
  rw [List.mem_append, List.mem_append]
  rintro (hmem | hmem | hmem)
  · exact hlead hmem
  · exact hline hmem
  · exact htrail hmem

theorem IsPadded.refl (line : List Char) : IsPadded line line :=
  ⟨[], [], by simp, areBlanks_nil, areBlanks_nil, List.not_mem_nil, List.not_mem_nil⟩

theorem isPadded_return (line : List Char) : IsPadded line (line ++ ['\r']) := by
  refine ⟨[], ['\r'], rfl, areBlanks_nil, fun c hc => ?_, List.not_mem_nil, by decide⟩
  rw [List.mem_singleton.mp hc]
  decide

/-- Padding does not bring up line feeds. -/
theorem not_mem_of_forall₂ (h : List.Forall₂ IsPadded lines lines')
    (hlines : ∀ line ∈ lines, '\n' ∉ line) : ∀ padded ∈ lines', '\n' ∉ padded := by
  induction h with
  | nil => exact hlines
  | cons hpad _ ih =>
      rw [List.forall_mem_cons] at hlines ⊢
      exact ⟨hpad.not_mem hlines.1, ih hlines.2⟩

/-- Padded lines of a text are the lines of the text that they are joined to. -/
theorem pieces_intercalate_of_forall₂ {text : List Char}
    (h : List.Forall₂ IsPadded (pieces '\n' text) lines') :
    pieces '\n' (['\n'].intercalate lines') = lines' := by
  refine pieces_intercalate (fun hnil => ?_)
    (not_mem_of_forall₂ h fun line hline => not_mem_of_mem_pieces hline)
  rw [hnil, List.forall₂_nil_right_iff] at h
  exact pieces_ne_nil text h

end Padded

/-- A text with a carriage return in front of each line feed. -/
def withReturns (text : List Char) : List Char :=
  text.flatMap fun c => if c = '\n' then ['\r', '\n'] else [c]

theorem withReturns_append (first second : List Char) :
    withReturns (first ++ second) = withReturns first ++ withReturns second :=
  List.flatMap_append

theorem withReturns_of_not_mem {line : List Char} (h : '\n' ∉ line) : withReturns line = line := by
  induction line with
  | nil => rfl
  | cons c rest ih =>
      rw [List.mem_cons, not_or] at h
      have hc : withReturns [c] = [c] := by
        rw [withReturns, List.flatMap_singleton, if_neg (Ne.symm h.1)]
      rw [← List.singleton_append, withReturns_append, hc, ih h.2]

/-- Carriage returns in front of the line feeds are a padding of the lines. -/
theorem exists_padded_withReturns {lines : List (List Char)} (hne : lines ≠ [])
    (h : ∀ line ∈ lines, '\n' ∉ line) : ∃ lines', List.Forall₂ IsPadded lines lines' ∧
      withReturns (['\n'].intercalate lines) = ['\n'].intercalate lines' := by
  induction lines with
  | nil => exact absurd rfl hne
  | cons first rest ih =>
      rw [List.forall_mem_cons] at h
      have hfirst := withReturns_of_not_mem h.1
      cases rest with
      | nil =>
          refine ⟨[first], .cons (.refl first) .nil, ?_⟩
          rwa [List.intercalate_singleton]
      | cons second others =>
          obtain ⟨lines', hpadded, hjoined⟩ := ih (List.cons_ne_nil _ _) h.2
          have hne' : lines' ≠ [] := by
            rintro rfl
            exact List.cons_ne_nil _ _ (List.forall₂_nil_right_iff.mp hpadded)
          obtain ⟨next, later, rfl⟩ := List.exists_cons_of_ne_nil hne'
          refine ⟨(first ++ ['\r']) :: next :: later, .cons (isPadded_return first) hpadded, ?_⟩
          have hfeed : withReturns ['\n'] = ['\r'] ++ ['\n'] := rfl
          rw [List.intercalate_cons_cons, List.intercalate_cons_cons, withReturns_append,
            withReturns_append, hfirst, hfeed, hjoined]
          simp only [List.append_assoc]

end Text

end Soundstage
