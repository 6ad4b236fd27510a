import Mathlib
import Soundstage.Text.Blank

/-!
# Words and blanks

A text is blanks, a word, and what follows the word, which is nothing or begins with a blank.
`exists_nextWord` takes a text apart in this way and `nextWord_append` puts one together, so that
the first word of a text and what follows it are these parts and no others.
-/

namespace Soundstage.Text

/-- Blanks only. -/
def AreBlanks (s : List Char) : Prop := ∀ c ∈ s, isBlank c = true

/-- At least one blank, and nothing else. -/
def IsGap (s : List Char) : Prop := s ≠ [] ∧ AreBlanks s

/-- A text from its first character that is not blank. -/
def IsRest (s : List Char) : Prop := ∃ c rest, s = c :: rest ∧ isBlank c = false

/-- Characters that are not blank. -/
def IsSolid (s : List Char) : Prop := ∀ c ∈ s, isBlank c = false

/-- What may follow a word: nothing, or a text that begins with a blank. -/
def EndsWord (s : List Char) : Prop := ∀ c ∈ s.head?, isBlank c = true

theorem areBlanks_nil : AreBlanks [] := fun _ h => absurd h List.not_mem_nil

theorem AreBlanks.endsWord {s : List Char} (h : AreBlanks s) : EndsWord s :=
  fun c hc => h c (List.mem_of_mem_head? hc)

theorem IsGap.endsWord_append {gap : List Char} (h : IsGap gap) (rest : List Char) :
    EndsWord (gap ++ rest) := by
  obtain ⟨c, gap, rfl⟩ := List.exists_cons_of_ne_nil h.1
  intro d hd
  obtain rfl : c = d := Option.some.inj hd
  exact h.2 c List.mem_cons_self

theorem IsSolid.append {s t : List Char} (hs : IsSolid s) (ht : IsSolid t) : IsSolid (s ++ t) :=
  fun c hc => (List.mem_append.mp hc).elim (hs c) (ht c)

theorem IsSolid.isRest {s : List Char} (h : IsSolid s) (hne : s ≠ []) (rest : List Char) :
    IsRest (s ++ rest) := by
  obtain ⟨c, s, rfl⟩ := List.exists_cons_of_ne_nil hne
  exact ⟨c, s ++ rest, rfl, h c List.mem_cons_self⟩

/-- What follows a word and does not end a text begins with a gap. -/
theorem EndsWord.isGap {gap rest : List Char} (h : EndsWord (gap ++ rest)) (hgap : AreBlanks gap)
    (hrest : IsRest rest) : IsGap gap := by
  refine ⟨?_, hgap⟩
  rintro rfl
  obtain ⟨c, rest, rfl, hc⟩ := hrest
  rw [h c rfl] at hc
  exact Bool.noConfusion hc

section Parts

variable {lead word rest s : List Char}

theorem dropWhile_append_of_forall {p : Char → Bool} (h : ∀ c ∈ lead, p c = true)
    (hrest : ∀ c ∈ rest.head?, p c = false) : (lead ++ rest).dropWhile p = rest := by
  rw [List.dropWhile_append_of_pos h]
  cases rest with
  | nil => rfl
  | cons c rest => exact List.dropWhile_cons_of_neg (by simp [hrest c rfl])

theorem takeWhile_append_of_forall {p : Char → Bool} (h : ∀ c ∈ lead, p c = true)
    (hrest : ∀ c ∈ rest.head?, p c = false) : (lead ++ rest).takeWhile p = lead := by
  rw [List.takeWhile_append_of_pos h]
  cases rest with
  | nil => exact List.append_nil lead
  | cons c rest => rw [List.takeWhile_cons_of_neg (by simp [hrest c rfl]), List.append_nil]

theorem trimStart_append (hlead : AreBlanks lead) (hrest : IsRest rest) :
    trimStart (lead ++ rest) = rest := by
  obtain ⟨c, rest, rfl, hc⟩ := hrest
  exact dropWhile_append_of_forall hlead fun d hd => by rwa [← Option.some.inj hd]

theorem trimStart_of_areBlanks (h : AreBlanks s) : trimStart s = [] := by
  rw [trimStart, List.dropWhile_eq_nil_iff]
  exact h

/-- A text is blanks and what is left of it without them. -/
theorem exists_trimStart (s : List Char) : ∃ lead, s = lead ++ trimStart s ∧ AreBlanks lead ∧
    (trimStart s = [] ∨ IsRest (trimStart s)) := by
  refine ⟨s.takeWhile isBlank, (List.takeWhile_append_dropWhile).symm,
    fun c hc => List.mem_takeWhile_imp hc, ?_⟩
  cases h : trimStart s with
  | nil => exact .inl rfl
  | cons c rest =>
    have hhead := List.head?_dropWhile_not isBlank s
    rw [← trimStart, h] at hhead
    exact .inr ⟨c, rest, rfl, by simpa using hhead⟩

theorem nextWord_append (hlead : AreBlanks lead) (hword : IsSolid word) (hne : word ≠ [])
    (hrest : EndsWord rest) : nextWord (lead ++ (word ++ rest)) = (word, rest) := by
  have htrim := trimStart_append hlead (hword.isRest hne rest)
  have hsolid : ∀ c ∈ word, (!isBlank c) = true := fun c hc => by rw [hword c hc]; rfl
  have hends : ∀ c ∈ rest.head?, (!isBlank c) = false := fun c hc => by rw [hrest c hc]; rfl
  rw [nextWord, htrim, takeWhile_append_of_forall hsolid hends,
    dropWhile_append_of_forall hsolid hends]

/-- A text is blanks, its first word, and what follows that word. -/
theorem exists_nextWord (s : List Char) : ∃ lead,
    s = lead ++ ((nextWord s).1 ++ (nextWord s).2) ∧ AreBlanks lead ∧ IsSolid (nextWord s).1 ∧
      EndsWord (nextWord s).2 := by
  obtain ⟨lead, hs, hlead, -⟩ := exists_trimStart s
  refine ⟨lead, ?_, hlead, fun c hc => by simpa using List.mem_takeWhile_imp hc, fun c hc => ?_⟩
  · rw [nextWord, List.takeWhile_append_dropWhile]
    exact hs
  · have hhead := List.head?_dropWhile_not (!isBlank ·) (trimStart s)
    rw [nextWord] at hc
    rw [hc] at hhead
    simpa using hhead

end Parts

end Soundstage.Text
