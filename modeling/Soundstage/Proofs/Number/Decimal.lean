import Mathlib
import Soundstage.Number.Shortest

/-!
# Decimal numbers

The number that a decimal stands for, and what the count of its digits tells of its size.
`magnitude_spec` says that the magnitude of a quotient is the count of digits before its point.
-/

namespace Soundstage.Decimal

/-- The number that a decimal stands for. -/
def value (d : Decimal) : ℚ := d.digits * 10 ^ d.exponent

theorem value_nonneg (d : Decimal) : 0 ≤ d.value := by
  unfold value
  positivity

/-- The number that a decimal stands for as a quotient. -/
theorem value_eq_div (d : Decimal) :
    d.value = ((d.digits * Nat.pow 10 d.exponent.toNat : ℕ) : ℚ)
      / (Nat.pow 10 (-d.exponent).toNat : ℕ) := by
  unfold value
  rcases le_total 0 d.exponent with h | h
  · obtain ⟨k, hk⟩ := Int.eq_ofNat_of_zero_le h
    rw [hk]
    simp
  · obtain ⟨k, hk⟩ := Int.eq_ofNat_of_zero_le (neg_nonneg.mpr h)
    have hexponent : d.exponent = -k := by omega
    rw [hexponent]
    simp [div_eq_mul_inv]

theorem length_pos (n : ℕ) : 0 < length n := Nat.length_toDigits_pos

theorem lt_pow_length (n : ℕ) : n < 10 ^ length n :=
  (Nat.length_toDigits_le_iff (by decide) (length_pos n)).mp le_rfl

theorem pow_length_le {n : ℕ} (h : n ≠ 0) : 10 ^ (length n - 1) ≤ n := by
  have hpos := length_pos n
  obtain hone | hmore : length n = 1 ∨ 1 < length n := by omega
  · rw [hone]
    exact Nat.one_le_iff_ne_zero.mpr h
  · by_contra hlt
    have hle : length n ≤ length n - 1 :=
      (Nat.length_toDigits_le_iff (by decide) (by omega)).mpr (not_le.mp hlt)
    omega

theorem value_lt (d : Decimal) : d.value < 10 ^ ((length d.digits : ℤ) + d.exponent) := by
  have hlt : (d.digits : ℚ) < 10 ^ (length d.digits : ℤ) := by
    exact_mod_cast lt_pow_length d.digits
  rw [zpow_add₀ (by norm_num)]
  exact mul_lt_mul_of_pos_right hlt (by positivity)

theorem le_value {d : Decimal} (h : d.digits ≠ 0) :
    10 ^ ((length d.digits : ℤ) + d.exponent - 1) ≤ d.value := by
  have hpos := length_pos d.digits
  have hle : (10 : ℚ) ^ ((length d.digits - 1 : ℕ) : ℤ) ≤ d.digits := by
    exact_mod_cast pow_length_le h
  rw [show (length d.digits : ℤ) + d.exponent - 1
    = ((length d.digits - 1 : ℕ) : ℤ) + d.exponent by omega, zpow_add₀ (by norm_num)]
  exact mul_le_mul_of_nonneg_right hle (by positivity)

theorem value_trimZeros (fuel : ℕ) (d : Decimal) : (trimZeros fuel d).value = d.value := by
  induction fuel generalizing d with
  | zero => rfl
  | succ fuel ih =>
    rw [trimZeros]
    split_ifs with h
    · have hdigits : (d.digits : ℚ) = 10 * (d.digits / 10 : ℕ) := by
        exact_mod_cast (Nat.mul_div_cancel' (Nat.dvd_of_mod_eq_zero h.2)).symm
      rw [ih, value, value, zpow_add_one₀ (by norm_num), hdigits]
      ring
    · rfl

section Magnitude

variable {num den : ℕ}

/-- From one on, a quotient is between two powers of ten if its whole part is. -/
theorem whole_between (hden : 0 < den) (hle : den ≤ num) :
    (10 : ℚ) ^ ((length (num / den) : ℤ) - 1) ≤ num / den ∧
      (num / den : ℚ) < 10 ^ (length (num / den) : ℤ) := by
  have hden' : (0 : ℚ) < den := by exact_mod_cast hden
  have hwhole : num / den ≠ 0 := (Nat.div_pos hle hden).ne'
  constructor
  · calc (10 : ℚ) ^ ((length (num / den) : ℤ) - 1)
        = ((10 ^ (length (num / den) - 1) : ℕ) : ℚ) := by
          rw [← Nat.cast_pred (length_pos (num / den))]
          push_cast
          rw [zpow_natCast]
      _ ≤ (num / den : ℕ) := by exact_mod_cast pow_length_le hwhole
      _ ≤ num / den := Nat.cast_div_le
  · have hlt : num < 10 ^ length (num / den) * den :=
      (Nat.div_lt_iff_lt_mul hden).mp (lt_pow_length (num / den))
    rw [div_lt_iff₀ hden', zpow_natCast]
    exact_mod_cast hlt

/-- Below one, the whole part of the inverse counts the zeros behind the point. -/
theorem fraction_between (hnum : 0 < num) (hlt : num < den) {zeros : ℕ}
    (hzeros : length (den / num) = zeros + 1) :
    (10 : ℚ) ^ (-(zeros : ℤ) - 1) < num / den ∧ 10 ^ zeros * num ≤ den := by
  have hden' : (0 : ℚ) < den := by exact_mod_cast hnum.trans hlt
  have hwhole : den / num ≠ 0 := (Nat.div_pos hlt.le hnum).ne'
  constructor
  · have hhigh : den < 10 ^ (zeros + 1) * num := by
      rw [← hzeros]
      exact (Nat.div_lt_iff_lt_mul hnum).mp (lt_pow_length (den / num))
    rw [show -(zeros : ℤ) - 1 = -((zeros + 1 : ℕ) : ℤ) by push_cast; ring, zpow_neg, zpow_natCast,
      lt_div_iff₀ hden', inv_mul_lt_iff₀ (by positivity)]
    exact_mod_cast hhigh
  · have hle := pow_length_le hwhole
    rw [hzeros, Nat.add_sub_cancel] at hle
    exact (Nat.le_div_iff_mul_le hnum).mp hle

/-- The magnitude of a positive quotient is the least power of ten above it. -/
theorem magnitude_spec (hnum : 0 < num) (hden : 0 < den) :
    (10 : ℚ) ^ (magnitude num den - 1) ≤ (num : ℚ) / den ∧
      (num : ℚ) / den < 10 ^ magnitude num den := by
  have hden' : (0 : ℚ) < den := by exact_mod_cast hden
  unfold magnitude
  split_ifs with hle
  · exact whole_between hden hle
  · obtain ⟨zeros, hzeros⟩ : ∃ zeros, length (den / num) = zeros + 1 :=
      Nat.exists_eq_succ_of_ne_zero (length_pos (den / num)).ne'
    obtain ⟨hlow, hhigh⟩ := fraction_between hnum (not_le.mp hle) hzeros
    dsimp only
    rw [hzeros, Nat.add_sub_cancel, Nat.pow_eq]
    split_ifs with heq
    · have hvalue : (num : ℚ) / den = 10 ^ (-(zeros : ℤ)) := by
        rw [← heq, zpow_neg, zpow_natCast]
        push_cast
        field_simp
      rw [hvalue, sub_sub_cancel_left]
      exact ⟨le_rfl, zpow_lt_zpow_right₀ (by norm_num) (by omega)⟩
    · refine ⟨hlow.le, ?_⟩
      have hlt : 10 ^ zeros * num < den :=
        lt_of_le_of_ne hhigh fun h => heq (by rwa [Nat.mul_comm])
      rw [zpow_neg, zpow_natCast, div_lt_iff₀ hden', lt_inv_mul_iff₀ (by positivity)]
      exact_mod_cast hlt

end Magnitude

end Soundstage.Decimal
