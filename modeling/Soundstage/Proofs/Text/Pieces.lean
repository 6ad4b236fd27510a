import Soundstage.Text.Blank

/-!
# The pieces of joined texts

A text falls into the pieces between its separators, and joining texts without a separator in them
can be undone.
-/

namespace Soundstage

namespace Text

variable {α : Type} [DecidableEq α] {separator : α}

theorem pieces_ne_nil (text : List α) : pieces separator text ≠ [] := by
  induction text with
  | nil => simp [pieces]
  | cons c rest ih =>
      unfold pieces
      split
      · simp
      · split <;> simp

theorem pieces_append (left right : List α) :
    pieces separator (left ++ separator :: right)
      = pieces separator left ++ pieces separator right := by
  induction left with
  | nil => simp [pieces]
  | cons c rest ih =>
      by_cases hc : c = separator
      · simp [pieces, hc, ih]
      · cases hp : pieces separator rest with
        | nil => exact absurd hp (pieces_ne_nil rest)
        | cons first others => simp [pieces, hc, ih, hp]

theorem pieces_of_not_mem {text : List α} (h : separator ∉ text) :
    pieces separator text = [text] := by
  induction text with
  | nil => rfl
  | cons c rest ih =>
      rw [List.mem_cons, not_or] at h
      simp [pieces, Ne.symm h.1, ih h.2]

theorem not_mem_of_mem_pieces {text piece : List α} (h : piece ∈ pieces separator text) :
    separator ∉ piece := by
  induction text generalizing piece with
  | nil =>
      rw [pieces, List.mem_singleton] at h
      simp [h]
  | cons c rest ih =>
      by_cases hc : c = separator
      · simp only [pieces, if_pos hc, List.mem_cons] at h
        rcases h with rfl | h
        · simp
        · exact ih h
      · cases hp : pieces separator rest with
        | nil => exact absurd hp (pieces_ne_nil rest)
        | cons first others =>
            rw [hp] at ih
            simp only [pieces, if_neg hc, hp, List.mem_cons] at h
            rcases h with rfl | h
            · rw [List.mem_cons, not_or]
              exact ⟨Ne.symm hc, ih List.mem_cons_self⟩
            · exact ih (List.mem_cons_of_mem _ h)

/-- Joining texts that do not have the separator can be undone. -/
theorem pieces_intercalate {texts : List (List α)} (hne : texts ≠ [])
    (h : ∀ text ∈ texts, separator ∉ text) :
    pieces separator ([separator].intercalate texts) = texts := by
  induction texts with
  | nil => exact absurd rfl hne
  | cons first rest ih =>
      have hfirst := pieces_of_not_mem (h first List.mem_cons_self)
      cases rest with
      | nil => simpa using hfirst
      | cons next rest =>
          have hrest := ih (List.cons_ne_nil _ _) fun text ht => h text (List.mem_cons_of_mem _ ht)
          rw [List.intercalate_cons_cons, List.append_assoc, List.singleton_append,
            pieces_append, hfirst, hrest]
          rfl

/-- Splitting can be undone by joining. -/
theorem intercalate_pieces (text : List α) :
    [separator].intercalate (pieces separator text) = text := by
  induction text with
  | nil => rfl
  | cons c rest ih =>
      cases hp : pieces separator rest with
      | nil => exact absurd hp (pieces_ne_nil rest)
      | cons first others =>
          rw [hp] at ih
          by_cases hc : c = separator
          · rw [pieces, if_pos hc, hp, List.intercalate_cons_cons, ih, hc]
            rfl
          · simp only [pieces, if_neg hc, hp]
            cases others with
            | nil => simpa using ih
            | cons second others =>
                rw [List.intercalate_cons_cons] at ih ⊢
                rw [List.cons_append, List.cons_append, ← ih]

end Text

end Soundstage
