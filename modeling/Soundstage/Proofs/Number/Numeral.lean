import Mathlib
import Soundstage.Number.Numeral
import Soundstage.Proofs.Number.Decimal
import Soundstage.Proofs.Number.Rounds

/-!
# The doubles of numerals

A numeral stands for a sign and a number of powers of ten, and `Numeral.rounds_toFloat` says that
its double is what that number is rounded to, however many digits there are. The bounds from which
on a numeral is infinite or vanishes without being computed lie outside of the sizes of doubles.
-/

namespace Soundstage.Numeral

open Binary64

/-- The digits and the power of ten of a numeral. -/
def decimal (n : Numeral) : Decimal := ⟨n.digits, n.scale⟩

/-- The size of the number that a numeral stands for. -/
def size (n : Numeral) : ℚ := n.decimal.value

theorem size_nonneg (n : Numeral) : 0 ≤ n.size := n.decimal.value_nonneg

/-- What is not above the first middle vanishes. -/
theorem rounds_zero (negative : Bool) {v : ℚ} (h : v ≤ middle 0) :
    Rounds negative v (nearest negative 0 1) := by
  obtain ⟨hsign, hpattern⟩ := ofBits_parts negative (Nat.zero_le infinityBits)
  refine rounds_of_isNearest hsign ⟨h, ?_, fun _ => rfl, fun _ _ _ => rfl⟩ hpattern
  intro previous hprevious
  exact absurd hprevious (Nat.succ_ne_zero previous).symm

theorem le_middle_zero {v : ℚ} (h : v < 10 ^ (-330 : ℤ)) : v ≤ middle 0 := by
  have hmiddle : middle 0 = (2 ^ 1075)⁻¹ := by
    have hplace : IsPlace 0 0 := ⟨by decide, .inl rfl⟩
    have hgrid := middle_grid hplace (by decide)
    rw [Nat.zero_mul, Nat.zero_add, gap, leastExponent] at hgrid
    rw [hgrid, pow_succ, mul_inv, ← zpow_natCast, ← zpow_neg, Nat.cast_zero, zero_add, one_div,
      mul_comm]
    rfl
  have hpower : (2 : ℚ) ^ 1075 ≤ 10 ^ 330 := by
    exact_mod_cast (by decide +kernel : 2 ^ 1075 ≤ 10 ^ 330)
  rw [hmiddle]
  refine h.le.trans ?_
  rw [zpow_neg]
  exact inv_anti₀ (by positivity) hpower

theorem overflow_le {v : ℚ} (h : 10 ^ (310 : ℤ) ≤ v) : 2 ^ 1024 - 2 ^ 970 ≤ v := by
  have hpower : (2 : ℚ) ^ 1024 ≤ 10 ^ 310 := by
    exact_mod_cast (by decide +kernel : 2 ^ 1024 ≤ 10 ^ 310)
  refine le_trans ?_ h
  exact (sub_le_self _ (by positivity)).trans hpower

theorem rounds_toFloat (n : Numeral) : Rounds n.negative n.size n.toFloat := by
  unfold toFloat
  dsimp only
  split_ifs with hsmall hlarge
  · refine rounds_zero n.negative ?_
    by_cases hzero : n.digits = 0
    · rw [size, Decimal.value, decimal, hzero, Nat.cast_zero, zero_mul]
      exact (Binary64.size_nonneg 0).trans (size_lt_middle 0).le
    · refine le_middle_zero (n.decimal.value_lt.trans_le ?_)
      exact zpow_le_zpow_right₀ (by norm_num) (Int.le_of_lt ((or_iff_right hzero).mp hsmall))
  · obtain ⟨hzero, -⟩ := not_or.mp hsmall
    refine rounds_infinity (overflow_le (le_trans ?_ (Decimal.le_value hzero)))
    exact zpow_le_zpow_right₀ (by norm_num) (Int.le_sub_one_of_lt hlarge)
  · rw [size, Decimal.value_eq_div]
    exact rounds_nearest n.negative _ (Nat.pow_pos (by decide)).ne'

end Soundstage.Numeral
