import Soundstage.Asset.Fragment

/-!
# The form of fragments

Whatever a text is, its fragment consists of words of lowercase letters and digits with one dash
between them. A fragment is extended either by one more character of its last word, or by a dash and
the first character of a new word; nothing else is ever written, so that it never begins or ends
with a dash and never has two of them together.
-/

namespace Soundstage

namespace AssetKey

/-- The characters of words. -/
def IsWordChar (c : Char) : Prop := c.isLower = true ∨ c.isDigit = true

/-- The characters that fragments are written with. -/
def IsFragmentChar (c : Char) : Prop := IsWordChar c ∨ c = '-'

theorem isUpper_iff (c : Char) :
    c.isUpper = true ↔ 'A'.val.toNat ≤ c.val.toNat ∧ c.val.toNat ≤ 'Z'.val.toNat := by
  change decide ('A'.val ≤ c.val ∧ c.val ≤ 'Z'.val) = true ↔ _
  simp [UInt32.le_iff_toNat_le]

theorem isLower_iff (c : Char) :
    c.isLower = true ↔ 'a'.val.toNat ≤ c.val.toNat ∧ c.val.toNat ≤ 'z'.val.toNat := by
  change (decide ('a'.val ≤ c.val) && decide (c.val ≤ 'z'.val)) = true ↔ _
  simp [UInt32.le_iff_toNat_le]

theorem isLower_toLower {c : Char} (h : c.isUpper = true) : c.toLower.isLower = true := by
  have hrange := (isUpper_iff c).mp h
  have hlower : c.toLower.val = c.val + 32 := by
    unfold Char.toLower
    rw [dif_pos ⟨UInt32.le_iff_toNat_le.mpr hrange.1, UInt32.le_iff_toNat_le.mpr hrange.2⟩]
    rfl
  have hval : c.toLower.val.toNat = c.val.toNat + 32 := by
    have hA : 'A'.val.toNat = 65 := rfl
    have hZ : 'Z'.val.toNat = 90 := rfl
    have h32 : (32 : UInt32).toNat = 32 := rfl
    rw [hlower, UInt32.toNat_add]
    omega
  have ha : 'a'.val.toNat = 'A'.val.toNat + 32 := rfl
  have hz : 'z'.val.toNat = 'Z'.val.toNat + 32 := rfl
  rw [isLower_iff, hval]
  omega

theorem toLower_of_not_isUpper {c : Char} (h : ¬ c.isUpper = true) : c.toLower = c := by
  unfold Char.toLower
  rw [dif_neg fun hrange => h ((isUpper_iff c).mpr
    ⟨UInt32.le_iff_toNat_le.mp hrange.1, UInt32.le_iff_toNat_le.mp hrange.2⟩)]

/-- What is kept of a text is written with the characters of words. -/
theorem isWordChar_toLower {c : Char} (h : isKept c = true) : IsWordChar c.toLower := by
  by_cases hupper : c.isUpper = true
  · exact .inl (isLower_toLower hupper)
  · rw [toLower_of_not_isUpper hupper]
    change (c.isUpper || c.isLower || c.isDigit) = true at h
    simpa [hupper, IsWordChar] using h

section Form

variable {s : List Char} {c : Char}

theorem isWord_singleton (hc : IsWordChar c) : IsWord [c] :=
  ⟨List.cons_ne_nil c [], fun _ hd => List.mem_singleton.mp hd ▸ hc⟩

/-- One more word is written behind a dash. -/
theorem intercalate_concat {words : List (List Char)} (hne : words ≠ []) (word : List Char) :
    ['-'].intercalate (words ++ [word]) = ['-'].intercalate words ++ '-' :: word := by
  induction words with
  | nil => exact absurd rfl hne
  | cons first rest ih =>
      cases rest with
      | nil => simp [List.intercalate_cons_cons]
      | cons second others =>
          have hrest := ih (List.cons_ne_nil second others)
          rw [List.cons_append] at hrest
          rw [List.cons_append, List.cons_append, List.intercalate_cons_cons, hrest,
            List.intercalate_cons_cons]
          simp only [List.append_assoc]

theorem IsFragment.of_char (hc : IsWordChar c) : IsFragment [c] := by
  refine ⟨[[c]], List.cons_ne_nil _ _, fun word hword => ?_, List.intercalate_singleton.symm⟩
  rw [List.mem_singleton.mp hword]
  exact isWord_singleton hc

/-- A fragment goes on with a character of its last word. -/
theorem IsFragment.concat (h : IsFragment s) (hc : IsWordChar c) : IsFragment (s ++ [c]) := by
  obtain ⟨words, hne, hwords, rfl⟩ := h
  obtain ⟨front, last, rfl⟩ := (List.eq_nil_or_concat words).resolve_left hne
  rw [List.concat_eq_append] at hwords ⊢
  refine ⟨front ++ [last ++ [c]], List.append_ne_nil_of_right_ne_nil _ (List.cons_ne_nil _ _),
    ?_, ?_⟩
  · intro word hword
    rcases List.mem_append.mp hword with hold | hnew
    · exact hwords word (List.mem_append_left _ hold)
    · obtain ⟨-, hlast⟩ := hwords last (List.mem_append_right _ List.mem_cons_self)
      rw [List.mem_singleton.mp hnew]
      refine ⟨List.append_ne_nil_of_right_ne_nil _ (List.cons_ne_nil _ _), fun d hd => ?_⟩
      rcases List.mem_append.mp hd with hbefore | hc'
      · exact hlast d hbefore
      · exact List.mem_singleton.mp hc' ▸ hc
  · cases front with
    | nil => simp [List.intercalate_singleton]
    | cons first rest =>
        rw [intercalate_concat (List.cons_ne_nil _ _), intercalate_concat (List.cons_ne_nil _ _),
          List.append_assoc]
        rfl

/-- Or with a dash and the first character of a new word. -/
theorem IsFragment.concat_dash (h : IsFragment s) (hc : IsWordChar c) :
    IsFragment (s ++ ['-', c]) := by
  obtain ⟨words, hne, hwords, rfl⟩ := h
  refine ⟨words ++ [[c]], List.append_ne_nil_of_left_ne_nil hne _, ?_,
    (intercalate_concat hne [c]).symm⟩
  intro word hword
  rcases List.mem_append.mp hword with hold | hnew
  · exact hwords word hold
  · rw [List.mem_singleton.mp hnew]
    exact isWord_singleton hc

/-- All characters of a fragment are those of words, or dashes. -/
theorem IsFragment.mem (h : IsFragment s) (hc : c ∈ s) : IsFragmentChar c := by
  obtain ⟨words, hne, hwords, rfl⟩ := h
  induction words with
  | nil => exact absurd rfl hne
  | cons first rest ih =>
      have hfirst : c ∈ first → IsFragmentChar c := fun hmem =>
        .inl ((hwords first List.mem_cons_self).2 c hmem)
      cases rest with
      | nil =>
          rw [List.intercalate_singleton] at hc
          exact hfirst hc
      | cons second others =>
          rw [List.intercalate_cons_cons, List.append_assoc, List.mem_append, List.mem_append] at hc
          rcases hc with hmem | hdash | hmem
          · exact hfirst hmem
          · exact .inr (List.mem_singleton.mp hdash)
          · exact ih (List.cons_ne_nil _ _)
              (fun word hword => hwords word (List.mem_cons_of_mem _ hword)) hmem

end Form

/-- What is written backwards when a fragment is extended: nothing yet, or a fragment. -/
def IsBegun (backwards : List Char) : Prop := backwards = [] ∨ IsFragment backwards.reverse

/-- One step of extending: what is kept goes on with the fragment, behind a dash if characters have
been passed that are not. -/
theorem IsBegun.cons {backwards : List Char} {c : Char} (h : IsBegun backwards)
    (hc : IsWordChar c) (pending : Bool) :
    IsBegun (c :: if pending && !backwards.isEmpty then '-' :: backwards else backwards) := by
  refine .inr ?_
  rcases h with rfl | hfragment
  · simpa using IsFragment.of_char hc
  · by_cases hdash : (pending && !backwards.isEmpty) = true
    · rw [if_pos hdash, List.reverse_cons, List.reverse_cons, List.append_assoc]
      exact hfragment.concat_dash hc
    · rw [if_neg hdash, List.reverse_cons]
      exact hfragment.concat hc

/-- Extending keeps the form, by induction on the text. -/
theorem IsBegun.extendFragment {backwards : List Char} (h : IsBegun backwards) (pending : Bool)
    (text : List Char) : IsBegun (extendFragment backwards pending text) := by
  induction text generalizing backwards pending with
  | nil => exact h
  | cons c rest ih =>
      unfold AssetKey.extendFragment
      split
      · exact h
      · split
        · next hkept => exact ih (h.cons (isWordChar_toLower hkept) pending) false
        · exact ih h true

/-- The fragment of any text has the form of fragments. -/
theorem isFragment_fragment (text : String) : IsFragment (fragment text) := by
  have hbegun := IsBegun.extendFragment (.inl rfl) false text.toList
  unfold fragment
  split
  · refine ⟨["asset".toList], List.cons_ne_nil _ _, fun word hword => ?_, rfl⟩
    have hlower : "asset".toList.all Char.isLower = true := by decide
    rw [List.mem_singleton.mp hword]
    exact ⟨by decide, fun c hc => .inl (List.all_eq_true.mp hlower c hc)⟩
  · next hne => exact hbegun.resolve_left hne

/-- Texts without a letter or a digit are called by a name that is the same for all of them. -/
example : fragment "!!! ..." = "asset".toList := by decide

end AssetKey

end Soundstage
