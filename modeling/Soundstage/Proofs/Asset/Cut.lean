import Soundstage.Proofs.Asset.Wording

/-!
# Where fragments are cut

A fragment is written character by character, but it can be said in stages: dashes for all that is
not kept, none of them at the ends, and no more characters than the limit. The two agree unless the
last character within the limit would be a dash. A dash is only written together with the character
that follows it, so that such a fragment has one character more than the limit.
-/

namespace Soundstage

namespace AssetKey

section Dashes

variable {s text : List Char} {c : Char}

theorem toLower_ne_dash (h : isKept c = true) : c.toLower ≠ '-' := by
  intro hdash
  rcases isWordChar_toLower h with hlower | hdigit
  · rw [hdash] at hlower
    exact absurd hlower (by decide)
  · rw [hdash] at hdigit
    exact absurd hdigit (by decide)

theorem dashed_cons_of_kept (h : isKept c = true) (text : List Char) :
    dashed (c :: text) = c.toLower :: dashed text := by
  simp [dashed, h]

theorem dashed_cons_of_not_kept (h : isKept c = false) (text : List Char) :
    dashed (c :: text) = if (dashed text).head? = some '-' then dashed text
      else '-' :: dashed text := by
  unfold dashed
  rw [List.foldr_cons, h, if_neg Bool.false_ne_true]

/-- All characters that are not kept count alike. -/
theorem dashed_cons_eq (h : isKept c = false) (text : List Char) :
    dashed (c :: text) = dashed ('-' :: text) := by
  rw [dashed_cons_of_not_kept h, dashed_cons_of_not_kept (by decide)]

/-- A run of characters that are not kept goes on. -/
theorem dashed_dash_cons (h : isKept c = false) (text : List Char) :
    dashed ('-' :: c :: text) = dashed ('-' :: text) := by
  have hhead : (dashed (c :: text)).head? = some '-' := by
    rw [dashed_cons_of_not_kept h]
    split
    · assumption
    · rfl
  rw [dashed_cons_of_not_kept (by decide), if_pos hhead, dashed_cons_eq h]

/-- A run ends with the next character that is kept. -/
theorem dashed_dash_cons_of_kept (h : isKept c = true) (text : List Char) :
    dashed ('-' :: c :: text) = '-' :: c.toLower :: dashed text := by
  rw [dashed_cons_of_not_kept (by decide), dashed_cons_of_kept h, if_neg]
  simpa using toLower_ne_dash h

theorem dropLastDashes_nil : dropLastDashes [] = [] := rfl

/-- Dashes are dropped behind the last character that is none. -/
theorem dropLastDashes_append (h : c ≠ '-') (front s : List Char) :
    dropLastDashes (front ++ c :: s) = front ++ c :: dropLastDashes s := by
  unfold dropLastDashes
  have hback : (front ++ c :: s).reverse = s.reverse ++ c :: front.reverse := by simp
  rw [hback, List.dropWhile_append]
  split
  · next hall =>
      rw [List.isEmpty_iff.mp hall, List.dropWhile_cons_of_neg (by simpa using h)]
      simp
  · simp

theorem dropLastDashes_of_getLast? (h : s.getLast? ≠ some '-') : dropLastDashes s = s := by
  rcases List.eq_nil_or_concat s with rfl | ⟨front, last, rfl⟩
  · rfl
  · have hlast : last ≠ '-' := by simpa using h
    rw [List.concat_eq_append, dropLastDashes_append hlast, dropLastDashes_nil]

/-- No dash is left at the end. -/
theorem getLast?_dropLastDashes (s : List Char) : (dropLastDashes s).getLast? ≠ some '-' := by
  intro h
  have hhead := List.head?_dropWhile_not (· = '-') s.reverse
  rw [dropLastDashes, List.getLast?_reverse] at h
  rw [h] at hhead
  simp at hhead

theorem trimDashes_cons_of_ne (h : c ≠ '-') (s : List Char) :
    trimDashes (c :: s) = c :: dropLastDashes s := by
  rw [trimDashes, List.dropWhile_cons_of_neg (by simpa using h)]
  exact dropLastDashes_append h [] s

/-- What is not kept does not begin a text. -/
theorem trimDashes_dashed_cons (h : isKept c = false) (text : List Char) :
    trimDashes (dashed (c :: text)) = trimDashes (dashed text) := by
  rw [dashed_cons_of_not_kept h]
  split
  · rfl
  · rw [trimDashes, List.dropWhile_cons_of_pos (by decide)]
    rfl

end Dashes

/-- A text cut at a limit. A dash at the limit is kept together with the character behind it. -/
def cutAt (limit : Nat) (s : List Char) : List Char :=
  if limit ≠ 0 ∧ s[limit - 1]? = some '-' then s.take (limit + 1) else s.take limit

section Cut

variable {s text backwards : List Char} {c : Char} {n : Nat}

theorem cutAt_zero (s : List Char) : cutAt 0 s = [] := by
  simp [cutAt]

theorem cutAt_nil (n : Nat) : cutAt n [] = [] := by
  simp [cutAt]

theorem cutAt_cons (h : n ≠ 0) (hc : c ≠ '-') (s : List Char) :
    cutAt n (c :: s) = c :: cutAt (n - 1) s := by
  match n, h with
  | 1, _ => simp [cutAt, hc]
  | m + 2, _ =>
      simp only [cutAt, Nat.add_one_sub_one, List.getElem?_cons_succ, List.take_succ_cons]
      split <;> simp_all

/-- A dash takes the character behind it along. -/
theorem cutAt_dash_cons (h : n ≠ 0) (hc : c ≠ '-') (s : List Char) :
    cutAt n ('-' :: c :: s) = '-' :: c :: cutAt (n - 2) s := by
  match n, h with
  | 1, _ => simp [cutAt]
  | m + 2, _ =>
      have hstep : cutAt (m + 2) ('-' :: c :: s) = '-' :: cutAt (m + 1) (c :: s) := by
        simp only [cutAt, Nat.add_one_sub_one, List.getElem?_cons_succ, List.take_succ_cons]
        split <;> simp_all
      rw [hstep, cutAt_cons (Nat.succ_ne_zero m) hc]
      rfl

/-- A character that is not kept stands for those that have just been passed. -/
def passed (pending : Bool) (text : List Char) : List Char :=
  if pending then '-' :: text else text

/-- One more character that is not kept makes no difference. -/
theorem dashed_passed_cons (h : isKept c = false) (pending : Bool) (text : List Char) :
    dashed (passed pending (c :: text)) = dashed (passed true text) := by
  cases pending with
  | false => exact dashed_cons_eq h text
  | true => exact dashed_dash_cons h text

theorem extendFragment_of_full (h : fragmentLimit ≤ backwards.length) (pending : Bool)
    (text : List Char) : extendFragment backwards pending text = backwards := by
  cases text with
  | nil => rfl
  | cons c rest => rw [extendFragment, if_pos h]

/-- A fragment that has begun goes on with what is left of the text, cut where the limit is reached,
by induction on the text. -/
theorem reverse_extendFragment (hbegun : backwards ≠ []) (pending : Bool) (text : List Char) :
    (extendFragment backwards pending text).reverse = backwards.reverse
      ++ cutAt (fragmentLimit - backwards.length)
        (dropLastDashes (dashed (passed pending text))) := by
  induction text generalizing backwards pending with
  | nil =>
      have hnone : dropLastDashes (dashed (passed pending [])) = [] := by
        cases pending <;> decide
      rw [hnone, cutAt_nil, List.append_nil]
      rfl
  | cons c rest ih =>
      by_cases hfull : fragmentLimit ≤ backwards.length
      · rw [extendFragment_of_full hfull, Nat.sub_eq_zero_of_le hfull, cutAt_zero,
          List.append_nil]
      rw [extendFragment, if_neg hfull]
      have hroom : fragmentLimit - backwards.length ≠ 0 := by omega
      cases hkept : isKept c with
      | false =>
          rw [if_neg Bool.false_ne_true, ih hbegun true, dashed_passed_cons hkept]
      | true =>
          have hdash := toLower_ne_dash hkept
          have hsome : (!backwards.isEmpty) = true := by simpa using hbegun
          rw [if_pos rfl, hsome, Bool.and_true, ih (List.cons_ne_nil _ _) false]
          cases pending with
          | false =>
              have hgoes : dropLastDashes (dashed (passed false (c :: rest)))
                  = c.toLower :: dropLastDashes (dashed rest) :=
                (congrArg dropLastDashes (dashed_cons_of_kept hkept rest)).trans
                  (dropLastDashes_append hdash [] _)
              rw [hgoes, cutAt_cons hroom hdash]
              simp [passed, Nat.sub_sub]
          | true =>
              have hgoes : dropLastDashes (dashed (passed true (c :: rest)))
                  = '-' :: c.toLower :: dropLastDashes (dashed rest) :=
                (congrArg dropLastDashes (dashed_dash_cons_of_kept hkept rest)).trans
                  (dropLastDashes_append hdash ['-'] _)
              rw [hgoes, cutAt_dash_cons hroom hdash]
              simp [passed, Nat.sub_sub]

/-- A fragment that has not begun passes what is not kept. -/
theorem reverse_extendFragment_nil (pending : Bool) (text : List Char) :
    (extendFragment [] pending text).reverse
      = cutAt fragmentLimit (trimDashes (dashed text)) := by
  induction text generalizing pending with
  | nil => exact (cutAt_nil fragmentLimit).symm
  | cons c rest ih =>
      rw [extendFragment, if_neg (by decide)]
      cases hkept : isKept c with
      | false => rw [if_neg Bool.false_ne_true, ih, trimDashes_dashed_cons hkept]
      | true =>
          have hdash := toLower_ne_dash hkept
          rw [if_pos rfl, dashed_cons_of_kept hkept, trimDashes_cons_of_ne hdash,
            cutAt_cons (by decide) hdash]
          simp only [List.isEmpty_nil, Bool.not_true, Bool.and_false]
          exact reverse_extendFragment (List.cons_ne_nil _ _) false rest

end Cut

/-- The words of a text with a dash between them, of any length. -/
def dashedWords (text : String) : List Char := trimDashes (dashed text.toList)

/-- A name for what has no characters. -/
def orAsset (s : List Char) : List Char := if s = [] then "asset".toList else s

theorem fragment_eq_orAsset (text : String) :
    fragment text = orAsset (cutAt fragmentLimit (dashedWords text)) := by
  rw [dashedWords, ← reverse_extendFragment_nil false, fragment, orAsset]
  split
  · next hnil => rw [hnil, List.reverse_nil, if_pos rfl]
  · next hne => rw [if_neg (by simpa using hne)]

theorem stagedFragment_eq_orAsset (text : String) :
    stagedFragment text
      = orAsset (dropLastDashes ((dashedWords text).take fragmentLimit)) := by
  rw [stagedFragment, orAsset, dashedWords]
  split
  · next hnil => rw [hnil, if_pos rfl]
  · next hne => rw [if_neg hne]

theorem length_orAsset_le {s : List Char} {n : Nat} (hn : 5 ≤ n) (hs : s.length ≤ n) :
    (orAsset s).length ≤ n := by
  unfold orAsset
  split
  · exact hn
  · exact hs

theorem length_dropLastDashes_le (s : List Char) : (dropLastDashes s).length ≤ s.length := by
  rw [dropLastDashes, List.length_reverse]
  exact Nat.le_trans (List.dropWhile_sublist _).length_le (Nat.le_of_eq List.length_reverse)

/-- A fragment in stages keeps to the limit. -/
theorem length_stagedFragment_le (text : String) :
    (stagedFragment text).length ≤ fragmentLimit := by
  rw [stagedFragment_eq_orAsset]
  refine length_orAsset_le (by decide) (Nat.le_trans (length_dropLastDashes_le _) ?_)
  rw [List.length_take]
  exact Nat.min_le_left _ _

/-- Behind a dash there is a character. -/
theorem length_of_dash {s : List Char} {i : Nat} (hlast : s.getLast? ≠ some '-')
    (h : s[i]? = some '-') : i + 1 < s.length := by
  obtain ⟨hi, hdash⟩ := List.getElem?_eq_some_iff.mp h
  have hend : i ≠ s.length - 1 := by
    rintro rfl
    rw [List.getLast?_eq_getElem?] at hlast
    exact hlast h
  omega

/-- A dash at the limit makes a fragment one character longer. -/
theorem fragment_of_dash {text : String} (h : (dashedWords text)[fragmentLimit - 1]? = some '-') :
    fragment text = (dashedWords text).take (fragmentLimit + 1) ∧
      (fragment text).length = fragmentLimit + 1 := by
  have hlong : fragmentLimit - 1 + 1 < (dashedWords text).length :=
    length_of_dash (getLast?_dropLastDashes _) h
  have hlimit : fragmentLimit - 1 + 1 = fragmentLimit := rfl
  have hlength : ((dashedWords text).take (fragmentLimit + 1)).length = fragmentLimit + 1 := by
    rw [List.length_take]
    omega
  have hne : (dashedWords text).take (fragmentLimit + 1) ≠ [] := by
    intro hnil
    rw [hnil] at hlength
    cases hlength
  have heq : fragment text = (dashedWords text).take (fragmentLimit + 1) := by
    rw [fragment_eq_orAsset, cutAt, if_pos ⟨by decide, h⟩, orAsset, if_neg hne]
  exact ⟨heq, heq ▸ hlength⟩

/-- Without one, cutting leaves no dash at the end. -/
theorem fragment_of_not_dash {text : String}
    (h : (dashedWords text)[fragmentLimit - 1]? ≠ some '-') :
    fragment text = stagedFragment text := by
  have hend : ((dashedWords text).take fragmentLimit).getLast? ≠ some '-' := by
    rw [List.getLast?_take]
    rw [if_neg (by decide)]
    cases hlast : (dashedWords text)[fragmentLimit - 1]? with
    | some c =>
        rw [hlast] at h
        exact h
    | none => exact getLast?_dropLastDashes _
  rw [fragment_eq_orAsset, stagedFragment_eq_orAsset, cutAt, if_neg fun hcut => h hcut.2,
    dropLastDashes_of_getLast? hend]

/-- **Fragments in stages.** A fragment is what the stages say unless a dash stands at the limit.
Then it goes on with the dash and one character more, so that it is longer than the limit by one;
no fragment is longer than that. -/
theorem fragment_in_stages (text : String) :
    fragment text = (if (dashedWords text)[fragmentLimit - 1]? = some '-'
      then (dashedWords text).take (fragmentLimit + 1) else stagedFragment text) ∧
    (fragment text = stagedFragment text ↔
      (dashedWords text)[fragmentLimit - 1]? ≠ some '-') ∧
    ((fragment text).length ≤ fragmentLimit ↔
      (dashedWords text)[fragmentLimit - 1]? ≠ some '-') ∧
    (fragment text).length ≤ fragmentLimit + 1 ∧
    (stagedFragment text).length ≤ fragmentLimit := by
  have hstaged := length_stagedFragment_le text
  by_cases h : (dashedWords text)[fragmentLimit - 1]? = some '-'
  · obtain ⟨heq, hlength⟩ := fragment_of_dash h
    have hlonger : ¬ (fragment text).length ≤ fragmentLimit := by omega
    have hdiffers : fragment text ≠ stagedFragment text := by
      intro hsame
      rw [hsame] at hlonger
      exact hlonger hstaged
    rw [if_pos h]
    exact ⟨heq, iff_of_false hdiffers (not_not_intro h), iff_of_false hlonger (not_not_intro h),
      Nat.le_of_eq hlength, hstaged⟩
  · have heq := fragment_of_not_dash h
    rw [if_neg h]
    exact ⟨heq, iff_of_true heq h, iff_of_true (heq ▸ hstaged) h,
      heq ▸ Nat.le_succ_of_le hstaged, hstaged⟩

/-- Behind the elms the limit is reached. -/
def elms : String := "rain on a tin roof, wind in the old elms outside"

/-- The fragment of this text has one character more than the limit. -/
theorem fragment_may_exceed_limit :
    fragment elms = "rain-on-a-tin-roof-wind-in-the-old-elms-o".toList ∧
      stagedFragment elms = "rain-on-a-tin-roof-wind-in-the-old-elms".toList ∧
      (fragment elms).length = 41 ∧ fragmentLimit = 40 := by
  decide

end AssetKey

end Soundstage
