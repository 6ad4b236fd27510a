import Mathlib
import Soundstage.Proofs.Number.Nearest

/-!
# Rounding quotients to doubles

`nearestBits` finds the row of a quotient from the logarithms of its two numbers and rounds to a
place of that row. What it finds is the nearest pattern, unless that lies behind the infinity, which
then takes its place.
-/

namespace Soundstage.Binary64

/-- A number that is not negative is a quotient of natural numbers. -/
theorem exists_quotient {v : ℚ} (hv : 0 ≤ v) : ∃ num den : ℕ, den ≠ 0 ∧ v = num / den := by
  refine ⟨v.num.natAbs, v.den, v.den_ne_zero, ?_⟩
  have hnum : ((v.num.natAbs : ℕ) : ℚ) = v.num := by
    rw [Nat.cast_natAbs, abs_of_nonneg (Rat.num_nonneg.mpr hv)]
  rw [hnum, Rat.num_div_den]

theorem quotient_eq (mantissa : ℕ) (exponent : ℤ) :
    ((quotient mantissa exponent).1 : ℚ) / (quotient mantissa exponent).2
      = mantissa * 2 ^ exponent := by
  unfold quotient
  split_ifs with h
  · obtain ⟨n, rfl⟩ := Int.eq_ofNat_of_zero_le h
    simp
  · obtain ⟨n, hn⟩ := Int.eq_ofNat_of_zero_le (show 0 ≤ -exponent by omega)
    obtain rfl : exponent = -n := by omega
    simp [div_eq_mul_inv]

theorem quotient_den_pos (mantissa : ℕ) (exponent : ℤ) : 0 < (quotient mantissa exponent).2 := by
  unfold quotient
  split_ifs
  · exact one_pos
  · exact Nat.pow_pos two_pos

theorem scaled_eq (num den : ℕ) (exponent : ℤ) :
    ((scaled num den exponent).1 : ℚ) / (scaled num den exponent).2
      = (num / den : ℚ) / 2 ^ exponent := by
  unfold scaled
  split_ifs with h
  · obtain ⟨n, rfl⟩ := Int.eq_ofNat_of_zero_le h
    simp [div_div]
  · obtain ⟨n, hn⟩ := Int.eq_ofNat_of_zero_le (show 0 ≤ -exponent by omega)
    obtain rfl : exponent = -n := by omega
    simp [div_eq_mul_inv]
    ring

theorem scaled_den_pos (num : ℕ) {den : ℕ} (h : 0 < den) (exponent : ℤ) :
    0 < (scaled num den exponent).2 := by
  unfold scaled
  split_ifs
  · exact Nat.mul_pos h (Nat.pow_pos two_pos)
  · exact h

/-- The logarithms of the two numbers tell the size of a quotient up to a factor of two. -/
theorem div_between {num den : ℕ} (hnum : num ≠ 0) (hden : den ≠ 0) :
    (2 : ℚ) ^ ((num.log2 : ℤ) - den.log2 - 1) < (num : ℚ) / den ∧
      (num : ℚ) / den < 2 ^ ((num.log2 : ℤ) - den.log2 + 1) := by
  have hpos : (0 : ℚ) < den := by positivity
  have hnumlow : (2 : ℚ) ^ (num.log2 : ℤ) ≤ num := by
    exact_mod_cast Nat.log2_self_le hnum
  have hnumhigh : (num : ℚ) < 2 ^ ((num.log2 : ℤ) + 1) := by
    exact_mod_cast Nat.lt_log2_self
  have hdenlow : (2 : ℚ) ^ (den.log2 : ℤ) ≤ den := by
    exact_mod_cast Nat.log2_self_le hden
  have hdenhigh : (den : ℚ) < 2 ^ ((den.log2 : ℤ) + 1) := by
    exact_mod_cast Nat.lt_log2_self
  constructor
  · rw [lt_div_iff₀ hpos]
    calc (2 : ℚ) ^ ((num.log2 : ℤ) - den.log2 - 1) * den
        < 2 ^ ((num.log2 : ℤ) - den.log2 - 1) * 2 ^ ((den.log2 : ℤ) + 1) :=
          mul_lt_mul_of_pos_left hdenhigh (by positivity)
      _ = 2 ^ (num.log2 : ℤ) := by
          rw [← zpow_add₀ two_ne_zero]
          congr 1
          ring
      _ ≤ num := hnumlow
  · rw [div_lt_iff₀ hpos]
    calc (num : ℚ) < 2 ^ ((num.log2 : ℤ) + 1) := hnumhigh
      _ = 2 ^ ((num.log2 : ℤ) - den.log2 + 1) * 2 ^ (den.log2 : ℤ) := by
          rw [← zpow_add₀ two_ne_zero]
          congr 1
          ring
      _ ≤ 2 ^ ((num.log2 : ℤ) - den.log2 + 1) * den :=
          mul_le_mul_of_nonneg_left hdenlow (by positivity)

/-- A number has one exponent that brings it between `2 ^ 52` and `2 ^ 53`, and a greater one takes
it further down. -/
theorem exponentFor_spec {num den : ℕ} (hnum : num ≠ 0) (hden : den ≠ 0) :
    leastExponent ≤ exponentFor num den ∧
      (exponentFor num den = leastExponent ∨
        (mantissaFloor : ℚ) ≤ (num / den : ℚ) / 2 ^ exponentFor num den) ∧
      (num / den : ℚ) / 2 ^ exponentFor num den < 2 * mantissaFloor := by
  obtain ⟨hlow, hhigh⟩ := div_between hnum hden
  set v : ℚ := (num : ℚ) / den with hv
  have hM : (mantissaFloor : ℚ) = 2 ^ (52 : ℤ) := by norm_num [mantissaFloor]
  have hM' : 2 * (mantissaFloor : ℚ) = 2 ^ (53 : ℤ) := by norm_num [mantissaFloor]
  obtain ⟨e, he, hfloor, htop⟩ : ∃ e : ℤ, exponentFor num den = max leastExponent e ∧
      (mantissaFloor : ℚ) ≤ v / 2 ^ e ∧ v / 2 ^ e < 2 * mantissaFloor := by
    have hcut : (scaled num den ((num.log2 : ℤ) - den.log2 - 52)).1
          < mantissaFloor * (scaled num den ((num.log2 : ℤ) - den.log2 - 52)).2 ↔
        v / 2 ^ ((num.log2 : ℤ) - den.log2 - 52) < mantissaFloor := by
      have hpos := scaled_den_pos num (Nat.pos_of_ne_zero hden) ((num.log2 : ℤ) - den.log2 - 52)
      rw [hv, ← scaled_eq, div_lt_iff₀ (by exact_mod_cast hpos)]
      exact_mod_cast Iff.rfl
    by_cases h : v / 2 ^ ((num.log2 : ℤ) - den.log2 - 52) < mantissaFloor
    · refine ⟨(num.log2 : ℤ) - den.log2 - 52 - 1, ?_, ?_, ?_⟩
      · simp only [exponentFor, hcut, if_pos h]
      · rw [hM, le_div_iff₀ (by positivity), ← zpow_add₀ two_ne_zero]
        refine le_trans (le_of_eq ?_) hlow.le
        congr 1
        ring
      · rw [zpow_sub_one₀ two_ne_zero, div_mul_eq_div_div, div_inv_eq_mul]
        linarith
    · refine ⟨(num.log2 : ℤ) - den.log2 - 52, ?_, not_lt.mp h, ?_⟩
      · simp only [exponentFor, hcut, if_neg h]
      · rw [hM', div_lt_iff₀ (by positivity), ← zpow_add₀ two_ne_zero]
        refine lt_of_lt_of_le hhigh (le_of_eq ?_)
        congr 1
        ring
  rw [he]
  refine ⟨le_max_left _ _, ?_, ?_⟩
  · rcases max_choice leastExponent e with h | h <;> rw [h]
    · exact .inl rfl
    · exact .inr hfloor
  · refine lt_of_le_of_lt ?_ htop
    have hpos : 0 ≤ v := by positivity
    exact div_le_div_of_nonneg_left hpos (by positivity)
      (zpow_le_zpow_right₀ one_le_two (le_max_right _ _))

/-- The nearest pattern, or the infinity in place of all patterns behind it. -/
theorem nearestBits_spec (num : ℕ) {den : ℕ} (hden : den ≠ 0) :
    ∃ bits, IsNearest (num / den) bits ∧ nearestBits num den = min infinityBits bits := by
  by_cases hnum : num = 0
  · refine ⟨0, ?_, by simp [nearestBits, hnum]⟩
    simpa [hnum, size_zero] using IsNearest.of_size 0
  obtain ⟨hleast, hfloor, htop⟩ := exponentFor_spec hnum hden
  obtain ⟨row, hrow⟩ : ∃ row : ℕ, exponentFor num den = row + leastExponent :=
    ⟨(exponentFor num den - leastExponent).toNat, by omega⟩
  have hrounded := isRounded_roundDiv (scaled num den (exponentFor num den)).1
    (scaled_den_pos num (Nat.pos_of_ne_zero hden) (exponentFor num den))
  rw [scaled_eq] at hrounded
  have hnearest := @isNearest_grid row _ _ hrounded
    (hfloor.imp_left fun h => by omega) htop
  have hvalue : (num / den : ℚ) / 2 ^ exponentFor num den * gap row = num / den := by
    rw [gap, ← hrow]
    exact div_mul_cancel₀ _ (by positivity)
  rw [hvalue] at hnearest
  refine ⟨_, hnearest, ?_⟩
  rw [nearestBits, if_neg hnum, show row = (exponentFor num den - leastExponent).toNat by omega]

theorem exists_isNearest {v : ℚ} (hv : 0 ≤ v) : ∃ bits, IsNearest v bits := by
  obtain ⟨num, den, hden, rfl⟩ := exists_quotient hv
  obtain ⟨bits, hnearest, -⟩ := nearestBits_spec num hden
  exact ⟨bits, hnearest⟩

/-- A positive number lies in a row, in its upper half unless it is the first one. -/
theorem exists_row {v : ℚ} (hv : 0 < v) : ∃ (row : ℕ) (q : ℚ), v = q * gap row ∧
    (row = 0 ∨ mantissaFloor ≤ q) ∧ q < 2 * mantissaFloor := by
  obtain ⟨num, den, hden, rfl⟩ := exists_quotient hv.le
  have hnum : num ≠ 0 := by
    rintro rfl
    simp at hv
  obtain ⟨hleast, hfloor, htop⟩ := exponentFor_spec hnum hden
  obtain ⟨row, hrow⟩ : ∃ row : ℕ, exponentFor num den = row + leastExponent :=
    ⟨(exponentFor num den - leastExponent).toNat, by omega⟩
  refine ⟨row, _, ?_, hfloor.imp_left fun h => by omega, htop⟩
  rw [gap, ← hrow]
  exact (div_mul_cancel₀ _ (by positivity)).symm

/-- Where doubles have all their digits, rounding moves a number by less than its `2 ^ 53`th
part. -/
theorem IsNearest.abs_size_sub_le {v : ℚ} {bits : ℕ} (h : IsNearest v bits)
    (hv : 2 ^ (-1022 : ℤ) ≤ v) : |size bits - v| ≤ v / 2 ^ 53 := by
  obtain ⟨row, q, rfl, hlow, hhigh⟩ := exists_row (lt_of_lt_of_le (by positivity) hv)
  have hgap := gap_pos row
  have hfloor : (mantissaFloor : ℚ) ≤ q := by
    refine hlow.elim (fun hrow => ?_) id
    have hleast : (2 : ℚ) ^ (-1022 : ℤ) = mantissaFloor * gap 0 := by
      have hpower : (mantissaFloor : ℚ) = 2 ^ (52 : ℤ) := by norm_num [mantissaFloor]
      rw [hpower, gap, ← zpow_add₀ two_ne_zero]
      rfl
    rw [hleast, hrow] at hv
    exact le_of_mul_le_mul_right hv (gap_pos 0)
  obtain ⟨num, den, hden, hq⟩ := exists_quotient (le_trans (by positivity) hfloor)
  have hrounded := isRounded_roundDiv num (Nat.pos_of_ne_zero hden)
  rw [← hq] at hrounded
  rw [h.unique (isNearest_grid hrounded hlow hhigh),
    size_grid (isPlace_of_isRounded hrounded hlow hhigh), ← sub_mul, abs_mul, abs_of_pos hgap,
    abs_sub_comm]
  calc |q - roundDiv .toEven num den| * gap row
      ≤ 1 / 2 * gap row := mul_le_mul_of_nonneg_right hrounded.near hgap.le
    _ = mantissaFloor * gap row / 2 ^ 53 := by
        norm_num [mantissaFloor]
        ring
    _ ≤ q * gap row / 2 ^ 53 := by gcongr

end Soundstage.Binary64
