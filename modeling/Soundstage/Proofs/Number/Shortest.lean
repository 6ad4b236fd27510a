import Mathlib
import Soundstage.Proofs.Number.Interval
import Soundstage.Proofs.Number.Rounds

/-!
# The shortest decimal reads back

On a grid of powers of ten, a decimal that rounds to a double exists exactly if one of the double's
two neighbours on the grid is one, so `onGrid?` misses none. A grid of seventeen digits is finer
than the numbers that round to a double are wide, so the search ends with such a decimal:
`isNearest_shortest` says that what it finds is rounded to the double it was made for.
-/

namespace Soundstage

open Binary64

namespace RoundingInterval

variable {row place : ℕ}

/-- The grids on which the neighbours of an interval's value are taken. -/
theorem scaled_value_eq (i : RoundingInterval) (exponent : ℤ) :
    ((i.value * Nat.pow 10 (-exponent).toNat : ℕ) : ℚ)
        / (i.den * Nat.pow 10 exponent.toNat : ℕ)
      = (i.value / i.den : ℚ) / 10 ^ exponent := by
  rcases le_total 0 exponent with h | h
  · obtain ⟨k, rfl⟩ := Int.eq_ofNat_of_zero_le h
    simp [div_div]
  · obtain ⟨k, hk⟩ := Int.eq_ofNat_of_zero_le (neg_nonneg.mpr h)
    obtain rfl : exponent = -k := by omega
    simp [div_eq_mul_inv]
    ring

/-- The whole part of a quotient is the place of the neighbour below it on a grid. -/
theorem grid_neighbours (i : RoundingInterval) (hden : 0 < i.den) (exponent : ℤ) (digits : ℕ) :
    (Decimal.value ⟨digits, exponent⟩ ≤ i.value / i.den ↔
      digits ≤ i.value * Nat.pow 10 (-exponent).toNat / (i.den * Nat.pow 10 exponent.toNat)) := by
  have hpos : 0 < i.den * Nat.pow 10 exponent.toNat := Nat.mul_pos hden (Nat.pow_pos (by decide))
  have hpos' : (0 : ℚ) < (i.den * Nat.pow 10 exponent.toNat : ℕ) := by exact_mod_cast hpos
  rw [Nat.le_div_iff_mul_le hpos, Decimal.value, ← le_div_iff₀ (by positivity), ← scaled_value_eq,
    le_div_iff₀ hpos']
  exact_mod_cast Iff.rfl

/-- What is a tenth of a quadrillionth of the value is less than the width of the interval. -/
theorem lt_width (h : IsPlace row place) (hlt : place < 2 * mantissaFloor) {unit : ℚ}
    (hunit : unit * 10 ^ 16 ≤ place * gap row) {previous : ℕ}
    (hprevious : row * mantissaFloor + place = previous + 1) :
    unit < middle (row * mantissaFloor + place) - middle previous := by
  have hgap := gap_pos row
  rw [middle_grid h hlt, middle_before h hlt hprevious]
  unfold quartersBelow
  split_ifs with hnarrow
  · rw [hnarrow.1, mantissaFloor] at hunit ⊢
    push_cast at hunit ⊢
    linarith
  · have hplace : (place : ℚ) * gap row ≤ (2 * mantissaFloor : ℕ) * gap row :=
      mul_le_mul_of_nonneg_right (by exact_mod_cast hlt.le) hgap.le
    rw [mantissaFloor] at hplace
    push_cast at hplace ⊢
    linarith

theorem around_value_pos (row : ℕ) {place : ℕ} (hpos : 0 < place) :
    0 < (around place (row + leastExponent)).value := by
  have hplace : (0 : ℚ) < place := by exact_mod_cast hpos
  refine Nat.pos_of_ne_zero fun hzero => ?_
  have hvalue := around_value row place
  rw [hzero, Nat.cast_zero, zero_div] at hvalue
  exact absurd hvalue (mul_pos hplace (gap_pos row)).ne

section Found

variable (h : IsPlace row place) (hlt : place < 2 * mantissaFloor) (hpos : 0 < place)
include h hlt hpos

/-- What is found on a grid rounds to the double. -/
theorem isNearest_of_onGrid? {halves : Halves} {exponent : ℤ} {d : Decimal}
    (hd : (around place (row + leastExponent)).onGrid? halves exponent = some d) :
    IsNearest d.value (row * mantissaFloor + place) := by
  rw [← contains_around_iff h hlt hpos]
  unfold onGrid? at hd
  dsimp only at hd
  split at hd
  · next hbelow habove =>
    obtain rfl := Option.some.inj hd
    rw [roundDiv_eq]
    split_ifs
    · exact habove
    · exact (Bool.and_eq_true_iff.mp hbelow).1
  · next hbelow habove =>
    obtain rfl := Option.some.inj hd
    exact (Bool.and_eq_true_iff.mp hbelow).1
  · next hbelow habove =>
    obtain rfl := Option.some.inj hd
    exact habove
  · exact nomatch hd

/-- A grid with a decimal that rounds to the double is not missed. -/
theorem onGrid?_ne_none (halves : Halves) {exponent : ℤ} {digits : ℕ} (hdigits : 0 < digits)
    (hnearest : IsNearest (Decimal.value ⟨digits, exponent⟩) (row * mantissaFloor + place)) :
    (around place (row + leastExponent)).onGrid? halves exponent ≠ none := by
  have hvalue : IsNearest ((around place (row + leastExponent)).value
      / (around place (row + leastExponent)).den) (row * mantissaFloor + place) := by
    rw [around_value, ← size_grid h]
    exact IsNearest.of_size _
  have hgrid := grid_neighbours (around place (row + leastExponent)) (around_den_pos _ _) exponent
  unfold onGrid?
  dsimp only
  generalize (around place (row + leastExponent)).value * Nat.pow 10 (-exponent).toNat
    / ((around place (row + leastExponent)).den * Nat.pow 10 exponent.toNat) = whole at hgrid ⊢
  -- The neighbour on the side of the given decimal lies between it and the value.
  rcases le_or_gt (Decimal.value ⟨digits, exponent⟩) ((around place (row + leastExponent)).value
      / (around place (row + leastExponent)).den) with hle | hgt
  · have hdigits' : digits ≤ whole := (hgrid digits).mp hle
    have hbelow : (around place (row + leastExponent)).contains ⟨whole, exponent⟩ = true := by
      rw [contains_around_iff h hlt hpos]
      refine hnearest.between hvalue ?_ ((hgrid whole).mpr le_rfl)
      exact mul_le_mul_of_nonneg_right (by exact_mod_cast hdigits') (by positivity)
    rw [hbelow, decide_eq_true (by omega : 0 < whole)]
    cases (around place (row + leastExponent)).contains ⟨whole + 1, exponent⟩ <;> simp
  · have hdigits' : whole + 1 ≤ digits := by
      have := mt (hgrid digits).mpr hgt.not_ge
      omega
    have habove : (around place (row + leastExponent)).contains ⟨whole + 1, exponent⟩ = true := by
      rw [contains_around_iff h hlt hpos]
      refine hvalue.between hnearest ?_ ?_
      · have := mt (hgrid (whole + 1)).mp (by omega)
        exact (not_le.mp this).le
      · exact mul_le_mul_of_nonneg_right (by exact_mod_cast hdigits') (by positivity)
    rw [habove]
    cases (around place (row + leastExponent)).contains ⟨whole, exponent⟩ && decide (0 < whole) <;>
      simp

/-- Seventeen digits are enough: their grid is finer than the interval is wide. -/
theorem exists_finest : ∃ digits, 0 < digits ∧ IsNearest (Decimal.value ⟨digits,
    Decimal.magnitude (around place (row + leastExponent)).value
      (around place (row + leastExponent)).den - 17⟩) (row * mantissaFloor + place) := by
  obtain ⟨previous, hprevious⟩ : ∃ previous, row * mantissaFloor + place = previous + 1 :=
    ⟨row * mantissaFloor + place - 1, by omega⟩
  have hmagnitude := (Decimal.magnitude_spec (around_value_pos row hpos)
    (around_den_pos place (row + leastExponent))).1
  rw [around_value] at hmagnitude
  generalize Decimal.magnitude _ _ = magnitude at hmagnitude ⊢
  have hgrid : (10 : ℚ) ^ (magnitude - 17) * 10 ^ 16 ≤ place * gap row := by
    refine le_trans (le_of_eq ?_) hmagnitude
    rw [← zpow_natCast, ← zpow_add₀ (by norm_num)]
    congr 1
    ring
  have hpositive : (0 : ℚ) < 10 ^ (magnitude - 17) := by positivity
  unfold Decimal.value
  dsimp only
  generalize (10 : ℚ) ^ (magnitude - 17) = unit at hgrid hpositive ⊢
  have hwidth := lt_width h hlt hgrid hprevious
  have hstart : 0 ≤ middle previous := (size_nonneg _).trans (size_lt_middle _).le
  have hfloor := Nat.floor_le (div_nonneg hstart hpositive.le)
  have hnext := Nat.lt_floor_add_one (middle previous / unit)
  rw [le_div_iff₀ hpositive] at hfloor
  rw [div_lt_iff₀ hpositive] at hnext
  refine ⟨⌊middle previous / unit⌋₊ + 1, Nat.succ_pos _, ?_⟩
  rw [hprevious] at hwidth ⊢
  refine isNearest_of_between ?_ ?_ <;> push_cast <;> linarith

/-- The search ends with a decimal that rounds to the double, if the finest grid has one. -/
theorem isNearest_search (halves : Halves) {magnitude : ℤ} {digits : ℕ} (hdigits : 0 < digits)
    (hfinest : IsNearest (Decimal.value ⟨digits, magnitude - 17⟩) (row * mantissaFloor + place))
    (fuel : ℕ) :
    IsNearest ((around place (row + leastExponent)).search halves magnitude (fuel + 1)).value
      (row * mantissaFloor + place) := by
  induction fuel with
  | zero =>
    rw [search]
    split
    · next d hd => exact isNearest_of_onGrid? h hlt hpos hd
    · next hnone => exact absurd hnone (onGrid?_ne_none h hlt hpos halves hdigits hfinest)
  | succ fuel ih =>
    rw [search]
    split
    · next d hd => exact isNearest_of_onGrid? h hlt hpos hd
    · exact ih

end Found

end RoundingInterval

/-- The shortest decimal of a finite double is rounded to that double. -/
theorem isNearest_shortest (halves : Halves) {x : Float} {mantissa : ℕ} {exponent : ℤ}
    (h : size? x = some (mantissa, exponent)) :
    IsNearest (shortest halves mantissa exponent).value (pattern x) := by
  obtain ⟨row, rfl, hpattern, hplace, hlt⟩ := size?_grid h
  unfold shortest
  split_ifs with hzero
  · have hrow : row = 0 := hplace.2.resolve_right (by rw [hzero]; decide)
    have hvalue : Decimal.value ⟨0, 0⟩ = size 0 := by
      rw [size_zero, Decimal.value]
      simp
    rw [hpattern, hrow, hzero, Nat.zero_mul, hvalue]
    exact IsNearest.of_size 0
  · have hpos := Nat.pos_of_ne_zero hzero
    obtain ⟨digits, hdigits, hfinest⟩ := RoundingInterval.exists_finest hplace hlt hpos
    rw [hpattern, Decimal.value_trimZeros]
    exact RoundingInterval.isNearest_search hplace hlt hpos halves hdigits hfinest 16

end Soundstage
