import Mathlib
import Soundstage.Proofs.Disk.Parts
import Soundstage.Proofs.Text.Word
import Soundstage.Script.Printer

/-!
# Texts between the blanks of a line

`IsLineEnd` holds of the texts that begin and end with a character that is not blank and have no
line feed. They are what is left of a line that is trimmed, and they may be joined with single
blanks.
-/

namespace Soundstage.Text

variable {s t : List Char}

theorem getLast?_trimEnd (s : List Char) : ∀ c ∈ (trimEnd s).getLast?, isBlank c = false := by
  intro c hc
  rw [trimEnd, List.getLast?_reverse] at hc
  have hhead := List.head?_dropWhile_not isBlank s.reverse
  rw [hc] at hhead
  simpa using hhead

theorem exists_trimEnd (s : List Char) : ∃ trail, s = trimEnd s ++ trail ∧ AreBlanks trail := by
  obtain ⟨lead, hs, hlead, -⟩ := exists_trimStart s.reverse
  refine ⟨lead.reverse, ?_, fun c hc => hlead c (List.mem_reverse.mp hc)⟩
  have := congrArg List.reverse hs
  rwa [List.reverse_reverse, List.reverse_append] at this

/-- What is left of a line that is not blank. -/
theorem isLineEnd_trim (hfeed : '\n' ∉ s) (hne : trim s ≠ []) : IsLineEnd (trim s) := by
  obtain ⟨lead, hlead, -, hrest⟩ := exists_trimStart s
  obtain ⟨trail, htrail, -⟩ := exists_trimEnd (trimStart s)
  refine ⟨hne, fun c hc => ?_, getLast?_trimEnd _, fun hmem => hfeed ?_⟩
  · rcases hrest with hnil | ⟨d, rest, hd, hblank⟩
    · exact absurd (by rw [trim, hnil]; rfl) hne
    · have hhead : (trimStart s).head? = some c := by
        rw [htrail]
        exact (List.head?_append_of_ne_nil _ hne).trans hc
      rw [hd] at hhead
      rwa [← Option.some.inj hhead]
  · rw [hlead, htrail]
    exact List.mem_append_right _ (List.mem_append_left _ hmem)

theorem IsLineEnd.isRest (h : IsLineEnd s) : IsRest s := by
  obtain ⟨c, s, rfl⟩ := List.exists_cons_of_ne_nil h.1
  exact ⟨c, s, rfl, h.2.1 c rfl⟩

theorem IsLineEnd.trim_eq (h : IsLineEnd s) : trim s = s := by
  have hstart : trimStart s = s := trimStart_append areBlanks_nil h.isRest
  have hend : s.reverse.dropWhile isBlank = s.reverse := by
    have hlast : ∀ c ∈ s.reverse.head?, isBlank c = false := by
      rw [List.head?_reverse]
      exact h.2.2.1
    exact dropWhile_append_of_forall areBlanks_nil hlast
  rw [trim, hstart, trimEnd, hend, List.reverse_reverse]

theorem isLineEnd_of_isSolid (h : IsSolid s) (hne : s ≠ []) : IsLineEnd s := by
  refine ⟨hne, fun c hc => h c (List.mem_of_mem_head? hc),
    fun c hc => h c (List.mem_of_getLast? hc), fun hmem => ?_⟩
  exact absurd (h '\n' hmem) (by decide)

theorem IsLineEnd.append (hs : IsLineEnd s) (ht : IsLineEnd t) : IsLineEnd (s ++ ' ' :: t) := by
  refine ⟨List.append_ne_nil_of_left_ne_nil hs.1 _, fun c hc => hs.2.1 c ?_,
    fun c hc => ht.2.2.1 c ?_, fun hmem => ?_⟩
  · rwa [List.head?_append_of_ne_nil _ hs.1] at hc
  · rwa [List.getLast?_append_of_ne_nil _ (List.cons_ne_nil _ _),
      List.getLast?_cons_of_ne_nil ht.1] at hc
  · rcases List.mem_append.mp hmem with hmem | hmem
    · exact hs.2.2.2 hmem
    · rcases List.mem_cons.mp hmem with hblank | hmem
      · exact absurd hblank (by decide)
      · exact ht.2.2.2 hmem

/-- Texts that are joined with single blanks. -/
theorem isLineEnd_intercalate {texts : List String} (hne : texts ≠ [])
    (h : ∀ text ∈ texts, IsLineEnd text.toList) : IsLineEnd (" ".intercalate texts).toList := by
  induction texts with
  | nil => exact absurd rfl hne
  | cons first rest ih =>
    have hfirst := h first List.mem_cons_self
    cases rest with
    | nil => simpa using hfirst
    | cons next rest =>
      have hrest := ih (List.cons_ne_nil _ _) fun text ht => h text (List.mem_cons_of_mem _ ht)
      rw [String.intercalate_cons_cons, String.toList_append, String.toList_append,
        List.append_assoc]
      exact hfirst.append hrest

end Soundstage.Text
