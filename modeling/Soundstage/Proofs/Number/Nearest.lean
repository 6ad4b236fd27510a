import Mathlib
import Soundstage.Proofs.Number.Pattern

/-!
# Nearest patterns

A number is rounded to the pattern whose size is nearest, and to the even pattern of two that are
equally near. `IsNearest` says this with the middles between neighbours; that no other pattern is
nearer follows from it, and so does that there is one nearest pattern only. Rounding to a place of a
row gives the nearest pattern, whatever way the place was found, as `isNearest_grid` says.
-/

namespace Soundstage

/-- `r` is the integer nearest to `q`, the even one of two that are equally near. -/
structure IsRounded (q : ℚ) (r : ℕ) : Prop where
  near : |q - r| ≤ 1 / 2
  even : |q - r| = 1 / 2 → r % 2 = 0

theorem Halves.le_of_goesUp {rule : Halves} {q r den : ℕ} (h : rule.goesUp q r den = true) :
    den ≤ 2 * r := by
  unfold goesUp at h
  by_contra hlt
  rw [if_pos (by omega)] at h
  exact Bool.noConfusion h

theorem Halves.le_of_not_goesUp {rule : Halves} {q r den : ℕ} (h : ¬ rule.goesUp q r den = true) :
    2 * r ≤ den := by
  unfold goesUp at h
  by_contra hlt
  rw [if_neg (by omega), if_pos (by omega)] at h
  exact h rfl

/-- A quotient of natural numbers is its whole part and less than one. -/
theorem div_eq_add_mod_div (num : ℕ) {den : ℕ} (h : 0 < den) :
    (num : ℚ) / den = (num / den : ℕ) + (num % den : ℕ) / den := by
  have hden : (den : ℚ) ≠ 0 := by positivity
  have hsplit : (num : ℚ) = den * (num / den : ℕ) + (num % den : ℕ) := by
    exact_mod_cast (Nat.div_add_mod num den).symm
  field_simp
  linarith

theorem roundDiv_eq (rule : Halves) (num den : ℕ) : roundDiv rule num den
    = if rule.goesUp (num / den) (num % den) den then num / den + 1 else num / den := rfl

/-- However halves go, rounding moves a quotient by a half at most. -/
theorem abs_sub_roundDiv_le (rule : Halves) (num : ℕ) {den : ℕ} (h : 0 < den) :
    |(num : ℚ) / den - roundDiv rule num den| ≤ 1 / 2 := by
  have hden : (0 : ℚ) < den := by positivity
  have hmod : ((num % den : ℕ) : ℚ) < den := by exact_mod_cast Nat.mod_lt num h
  have hpos : (0 : ℚ) ≤ (num % den : ℕ) / den := by positivity
  have hlt : ((num % den : ℕ) : ℚ) / den < 1 := (div_lt_one hden).mpr hmod
  rw [div_eq_add_mod_div num h, roundDiv_eq, abs_le]
  split_ifs with hup
  · have hhalf : 1 / 2 ≤ ((num % den : ℕ) : ℚ) / den := by
      have hle : (den : ℚ) ≤ 2 * (num % den : ℕ) := by exact_mod_cast Halves.le_of_goesUp hup
      rw [le_div_iff₀ hden]
      linarith
    push_cast
    constructor <;> linarith
  · have hhalf : ((num % den : ℕ) : ℚ) / den ≤ 1 / 2 := by
      have hle : (2 : ℚ) * (num % den : ℕ) ≤ den := by exact_mod_cast Halves.le_of_not_goesUp hup
      rw [div_le_iff₀ hden]
      linarith
    constructor <;> linarith

theorem isRounded_roundDiv (num : ℕ) {den : ℕ} (h : 0 < den) :
    IsRounded ((num : ℚ) / den) (roundDiv .toEven num den) := by
  refine ⟨abs_sub_roundDiv_le .toEven num h, fun hhalf => ?_⟩
  have hden : (den : ℚ) ≠ 0 := by positivity
  have hcases :
      roundDiv .toEven num den = num / den ∨ roundDiv .toEven num den = num / den + 1 := by
    rw [roundDiv_eq]
    split_ifs <;> simp
  -- A half is left exactly if twice the remainder is the denominator.
  have htie : 2 * (num % den) = den := by
    have hrest : ((num % den : ℕ) : ℚ) / den = 1 / 2 := by
      have hpos : (0 : ℚ) ≤ (num % den : ℕ) / den := by positivity
      rw [div_eq_add_mod_div num h] at hhalf
      rcases hcases with hq | hq <;> rw [hq] at hhalf
      · rwa [add_sub_cancel_left, abs_of_nonneg hpos] at hhalf
      · have hlt : ((num % den : ℕ) : ℚ) / den < 1 := by
          rw [div_lt_one (by positivity)]
          exact_mod_cast Nat.mod_lt num h
        push_cast at hhalf
        rw [add_sub_add_left_eq_sub, abs_of_neg (by linarith)] at hhalf
        linarith
    have hcast : (2 : ℚ) * (num % den : ℕ) = den := by
      field_simp at hrest
      linarith
    exact_mod_cast hcast
  have hgoes : Halves.toEven.goesUp (num / den) (num % den) den = (num / den % 2 == 1) := by
    simp [Halves.goesUp, htie]
  rw [roundDiv_eq, hgoes]
  split_ifs with hodd <;> simp only [beq_iff_eq] at hodd <;> omega

namespace Binary64

/-- The middle between the sizes of a pattern and of the next one. -/
def middle (bits : ℕ) : ℚ := (size bits + size (bits + 1)) / 2

theorem size_lt_middle (bits : ℕ) : size bits < middle bits := by
  have := size_strictMono (Nat.lt_succ_self bits)
  unfold middle
  linarith

theorem middle_lt_size (bits : ℕ) : middle bits < size (bits + 1) := by
  have := size_strictMono (Nat.lt_succ_self bits)
  unfold middle
  linarith

theorem middle_grid {row place : ℕ} (h : IsPlace row place) (hlt : place < 2 * mantissaFloor) :
    middle (row * mantissaFloor + place) = (place + 1 / 2) * gap row := by
  rw [middle, size_succ h hlt, size_grid h]
  ring

/-- `bits` is the pattern whose size is nearest to `v`: no other one is beyond the middles that lie
around it, and on a middle it is even. -/
structure IsNearest (v : ℚ) (bits : ℕ) : Prop where
  le : v ≤ middle bits
  ge : ∀ previous, bits = previous + 1 → middle previous ≤ v
  even_of_eq : v = middle bits → bits % 2 = 0
  even_of_eq_previous : ∀ previous, bits = previous + 1 → v = middle previous → bits % 2 = 0

namespace IsNearest

variable {v w : ℚ} {bits other : ℕ}

theorem of_size (bits : ℕ) : IsNearest (size bits) bits where
  le := (size_lt_middle bits).le
  ge := by
    rintro previous rfl
    exact (middle_lt_size previous).le
  even_of_eq h := absurd h (size_lt_middle bits).ne
  even_of_eq_previous := by
    rintro previous rfl h
    exact absurd h (middle_lt_size previous).ne'

/-- Behind the middle above it, a pattern is not the nearest one. -/
theorem le_middle_of_lt (h : IsNearest v bits) (hlt : bits < other) :
    v ≤ (size bits + size other) / 2 := by
  have hnext : size (bits + 1) ≤ size other := size_strictMono.monotone hlt
  have hle := h.le
  unfold middle at hle
  linarith

theorem middle_le_of_lt (h : IsNearest v bits) (hlt : other < bits) :
    (size other + size bits) / 2 ≤ v := by
  obtain ⟨previous, rfl⟩ : ∃ previous, bits = previous + 1 := ⟨bits - 1, by omega⟩
  have hprevious : size other ≤ size previous := size_strictMono.monotone (Nat.le_of_lt_succ hlt)
  have hge := h.ge previous rfl
  unfold middle at hge
  linarith

/-- No pattern is nearer. -/
theorem abs_sub_le (h : IsNearest v bits) (other : ℕ) :
    |size bits - v| ≤ |size other - v| := by
  rcases lt_trichotomy bits other with hlt | rfl | hlt
  · have hmid := h.le_middle_of_lt hlt
    have hsize := size_strictMono hlt
    have hother := le_abs_self (size other - v)
    rw [abs_le]
    constructor <;> linarith
  · exact le_rfl
  · have hmid := h.middle_le_of_lt hlt
    have hsize := size_strictMono hlt
    have hother := neg_le_abs (size other - v)
    rw [abs_le]
    constructor <;> linarith

/-- If another pattern is equally near, this one is even. -/
theorem even_of_abs_sub_eq (h : IsNearest v bits) (hne : other ≠ bits)
    (heq : |size other - v| = |size bits - v|) : bits % 2 = 0 := by
  have hmiddle : (size bits + size other) / 2 = v := by
    rcases abs_eq_abs.mp heq with hsame | hopposite
    · have hsize : size other = size bits := by linarith
      exact absurd (size_strictMono.injective hsize) hne
    · linarith
  rcases lt_or_gt_of_ne hne with hlt | hlt
  · obtain ⟨previous, rfl⟩ : ∃ previous, bits = previous + 1 := ⟨bits - 1, by omega⟩
    have hprevious : size other ≤ size previous := size_strictMono.monotone (Nat.le_of_lt_succ hlt)
    refine h.even_of_eq_previous previous rfl (le_antisymm ?_ (h.ge previous rfl))
    unfold middle
    linarith
  · have hnext : size (bits + 1) ≤ size other := size_strictMono.monotone hlt
    refine h.even_of_eq (le_antisymm h.le ?_)
    unfold middle
    linarith

/-- Greater numbers have greater nearest patterns. -/
theorem mono (h : IsNearest v bits) (h' : IsNearest w other) (hle : v ≤ w) : bits ≤ other := by
  by_contra hlt
  rw [not_le] at hlt
  have hbelow := h.middle_le_of_lt hlt
  have habove := h'.le_middle_of_lt hlt
  obtain rfl : v = w := by linarith
  -- So `v` is the middle of the two, which are neighbours because no pattern between is nearer.
  obtain hnext | hfar : bits = other + 1 ∨ other + 1 < bits := by omega
  · subst hnext
    have hmiddle : v = middle other := by
      unfold middle
      linarith
    have heven := h.even_of_eq_previous other rfl hmiddle
    have heven' := h'.even_of_eq hmiddle
    omega
  · have hbetween := h.middle_le_of_lt hfar
    have := size_strictMono (Nat.lt_succ_self other)
    linarith

/-- There is one nearest pattern only. -/
theorem unique (h : IsNearest v bits) (h' : IsNearest v other) : bits = other :=
  Nat.le_antisymm (h.mono h' le_rfl) (h'.mono h le_rfl)

/-- What is as near as the nearest pattern, and even if it has to be, is the nearest pattern. -/
theorem eq_of_abs_sub_le (h : IsNearest v bits) (hle : |size other - v| ≤ |size bits - v|)
    (heven : bits ≠ other → |size bits - v| = |size other - v| → other % 2 = 0) :
    other = bits := by
  by_contra hne
  have heq := le_antisymm hle (h.abs_sub_le other)
  have hbits := h.even_of_abs_sub_eq hne heq
  have hother := heven (Ne.symm hne) heq.symm
  -- Both are even, so a pattern lies between them, and it is nearer.
  have hmiddle : (size bits + size other) / 2 = v := by
    rcases abs_eq_abs.mp heq with hsame | hopposite
    · exact absurd (size_strictMono.injective (by linarith)) hne
    · linarith
  rcases lt_or_gt_of_ne hne with hlt | hlt
  · have hbetween := h.middle_le_of_lt (show other + 1 < bits by omega)
    have := size_strictMono (Nat.lt_succ_self other)
    linarith
  · have hbetween := h.le_middle_of_lt (show bits < other - 1 by omega)
    have := size_strictMono (show other - 1 < other by omega)
    linarith

end IsNearest

/-- A number of a row is rounded to a place of that row. -/
theorem isPlace_of_isRounded {row place : ℕ} {q : ℚ} (h : IsRounded q place)
    (hlow : row = 0 ∨ mantissaFloor ≤ q) (hhigh : q < 2 * mantissaFloor) : IsPlace row place := by
  have hnear := abs_le.mp h.near
  constructor
  · have hle : (place : ℚ) < (2 * mantissaFloor + 1 : ℕ) := by
      push_cast
      linarith
    exact Nat.le_of_lt_succ (by exact_mod_cast hle)
  · refine hlow.imp_right fun hlow => ?_
    have hlt : (mantissaFloor : ℚ) < (place + 1 : ℕ) := by
      push_cast
      linarith
    exact Nat.le_of_lt_succ (by exact_mod_cast hlt)

section Grid

variable {row place previous : ℕ} {q : ℚ}

theorem lt_middle_of_end (hplace : IsPlace row place) (hend : place = 2 * mantissaFloor)
    (hhigh : q < 2 * mantissaFloor) : q * gap row < middle (row * mantissaFloor + place) := by
  refine lt_trans ?_ (size_lt_middle _)
  rw [size_grid hplace, hend]
  push_cast
  exact mul_lt_mul_of_pos_right hhigh (gap_pos row)

/-- The place before is in the row too, or the row begins here and all of it is above. -/
theorem place_before (hplace : IsPlace row place) (hlow : row = 0 ∨ mantissaFloor ≤ q)
    (hprevious : row * mantissaFloor + place = previous + 1) :
    (∃ before, place = before + 1 ∧ previous = row * mantissaFloor + before ∧
      before < 2 * mantissaFloor ∧ IsPlace row before) ∨ middle previous < q * gap row := by
  have hpos : 0 < mantissaFloor := by decide
  by_cases hin : row = 0 ∨ mantissaFloor < place
  · refine .inl ⟨place - 1, ?_, ?_, ?_, ?_⟩ <;> rcases hin with rfl | hin <;>
      first | omega | (unfold IsPlace at *; omega)
  · obtain ⟨hrow, hfloor⟩ := not_or.mp hin
    obtain rfl : place = mantissaFloor := by
      have := hplace.2
      omega
    refine .inr (lt_of_lt_of_le (middle_lt_size previous) ?_)
    rw [← hprevious, size_grid hplace]
    exact mul_le_mul_of_nonneg_right (hlow.resolve_left hrow) (gap_pos row).le

/-- Rounding to a place of a row gives the nearest pattern. -/
theorem isNearest_grid (h : IsRounded q place) (hlow : row = 0 ∨ mantissaFloor ≤ q)
    (hhigh : q < 2 * mantissaFloor) : IsNearest (q * gap row) (row * mantissaFloor + place) := by
  have hgap := gap_pos row
  have hnear := abs_le.mp h.near
  have hplace := isPlace_of_isRounded h hlow hhigh
  refine ⟨?_, ?_, ?_, ?_⟩
  · rcases hplace.1.eq_or_lt with hend | hlt
    · exact (lt_middle_of_end hplace hend hhigh).le
    · rw [middle_grid hplace hlt]
      exact mul_le_mul_of_nonneg_right (by linarith) hgap.le
  · intro previous hprevious
    rcases place_before hplace hlow hprevious with ⟨before, rfl, rfl, hlt, hbefore⟩ | hbelow
    · rw [middle_grid hbefore hlt]
      push_cast at hnear
      exact mul_le_mul_of_nonneg_right (by linarith) hgap.le
    · exact hbelow.le
  · intro hmiddle
    rcases hplace.1.eq_or_lt with hend | hlt
    · exact absurd hmiddle (lt_middle_of_end hplace hend hhigh).ne
    · rw [middle_grid hplace hlt] at hmiddle
      have hq : q - place = 1 / 2 := by linarith [mul_right_cancel₀ hgap.ne' hmiddle]
      exact (grid_mod_two row _).trans (h.even (by rw [hq]; norm_num))
  · intro previous hprevious hmiddle
    rcases place_before hplace hlow hprevious with ⟨before, rfl, rfl, hlt, hbefore⟩ | hbelow
    · rw [middle_grid hbefore hlt] at hmiddle
      have hq : q - (before + 1 : ℕ) = -(1 / 2) := by
        push_cast
        linarith [mul_right_cancel₀ hgap.ne' hmiddle]
      exact (grid_mod_two row _).trans (h.even (by rw [hq]; norm_num))
    · exact absurd hmiddle hbelow.ne'

end Grid

end Binary64

end Soundstage
