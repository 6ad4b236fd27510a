import Mathlib
import Soundstage.Proofs.Json.Literal

/-!
# Doubles in saved values

A finite double is saved as a number and every other double as null, and what is read from a number
is finite. Whether the reader meets the saved double itself is `ReadsBack`. It does where the digits
of the number fit into 53 bits and its power of ten is one of those that are doubles, so that the
one operation of the reader is the only one that rounds. It need not elsewhere.
-/

namespace Soundstage

open Binary64 Numeral
open Float.Model Float.Model.UnpackedFloat

namespace Binary64

variable {x y : Float}

theorem pow_ten_lt_overflow : (10 : ℚ) ^ 308 < 2 ^ 1024 - 2 ^ 970 := by
  rw [lt_sub_iff_add_lt]
  exact_mod_cast (by decide +kernel : 10 ^ 308 + 2 ^ 970 < 2 ^ 1024)

theorem isFinite_countToFloat {n : ℕ} (h : n < 2 ^ 64) : (countToFloat n).isFinite = true := by
  have hword : n.toUInt64.toNat = n := UInt64.toNat_ofNat_of_lt' h
  have hrounds := roundsTo_toFloat n.toUInt64
  rw [hword] at hrounds
  have hcount : countToFloat n = n.toUInt64.toFloat := if_pos h
  rw [hcount, hrounds.isFinite_iff, Nat.abs_cast]
  calc (n : ℚ) ≤ 10 ^ 308 := by exact_mod_cast h.le.trans (by decide +kernel)
    _ < 2 ^ 1024 - 2 ^ 970 := pow_ten_lt_overflow

theorem pattern_zero_div (hx : x.isFinite = true) (hzero : value x = 0) (hy : y.isFinite = true)
    (hne : value y ≠ 0) : pattern (x / y) = 0 := by
  have hquotient : x / y = packed (UnpackedFloat.div Format.binary64 x.toModel.unpack
    y.toModel.unpack) := rfl
  rcases finite_cases hx with ⟨exponent, hsize⟩ | ⟨mantissa, exponent, hpos, hsize⟩
  · rcases finite_cases hy with ⟨exponent', hsize'⟩ | ⟨mantissa', exponent', hpos', hsize'⟩
    · exact absurd (value_of_size?_zero hsize') hne
    · rw [hquotient, unpack_of_size?_zero hsize, unpack_of_size? hsize' hpos']
      exact (packed_zero _).2
  · have habs := abs_value x
    rw [hzero, abs_zero] at habs
    exact absurd habs (size_pattern_pos hsize hpos).ne

/-- A quotient is no greater than the dividend if the divisor is at least one. -/
theorem isFinite_div (hx : x.isFinite = true) (hy : y.isFinite = true) (h : 1 ≤ value y) :
    (x / y).isFinite = true := by
  have hypos : 0 < value y := zero_lt_one.trans_le h
  by_cases hzero : value x = 0
  · rw [isFinite_iff, pattern_zero_div hx hzero hy hypos.ne']
    decide
  · have hrounds := roundsTo_div hx hy (div_ne_zero hzero hypos.ne')
    rw [hrounds.isFinite_iff, abs_div, abs_of_pos hypos]
    exact (div_le_self (abs_nonneg _) h).trans_lt (abs_value_lt hx)

theorem RoundsTo.rounds {a : ℚ} (h : RoundsTo a x) (ha : 0 ≤ a) : Rounds false a x := by
  rwa [RoundsTo, abs_of_nonneg ha, decide_eq_false ha.not_gt] at h

end Binary64

namespace Json.Literal

theorem rounds_powerOfTen (n : ℕ) : RoundsTo (10 ^ n) (powerOfTen n) := by
  have h := rounds_nearest false (10 ^ n) one_ne_zero
  rw [Nat.cast_one, div_one, Nat.cast_pow, Nat.cast_ofNat] at h
  have hpos : (0 : ℚ) < 10 ^ n := by positivity
  rwa [RoundsTo, abs_of_pos hpos, decide_eq_false hpos.not_gt]

theorem isFinite_powerOfTen {n : ℕ} (h : n ≤ greatestPower) : (powerOfTen n).isFinite = true := by
  rw [(rounds_powerOfTen n).isFinite_iff, abs_of_pos (by positivity)]
  calc (10 : ℚ) ^ n ≤ 10 ^ 308 := pow_le_pow_right₀ (by norm_num) h
    _ < 2 ^ 1024 - 2 ^ 970 := pow_ten_lt_overflow

theorem one_le_powerOfTen {n : ℕ} (h : n ≤ greatestPower) : 1 ≤ value (powerOfTen n) := by
  rw [← value_one.2]
  refine (rounds_powerOfTen n).value_ge_value (isFinite_powerOfTen h) value_one.1 ?_
  rw [value_one.2]
  exact one_le_pow₀ (by norm_num)

theorem isFinite_scale? {x y : Float} {exponent : ℤ} (hx : x.isFinite = true)
    (h : scale? x exponent = some y) : y.isFinite = true := by
  unfold scale? at h
  extract_lets scaled at h
  split_ifs at h with hnonneg hle hfinite hzero hge hge'
  · exact Option.some.inj h ▸ hfinite
  · exact Option.some.inj h ▸ hx
  · rw [← Option.some.inj h]
    exact isFinite_div hx (isFinite_powerOfTen (by omega)) (one_le_powerOfTen (by omega))
  · rw [← Option.some.inj h]
    have hfirst := isFinite_div hx (isFinite_powerOfTen le_rfl) (one_le_powerOfTen le_rfl)
    exact isFinite_div hfirst (isFinite_powerOfTen (by omega)) (one_le_powerOfTen (by omega))
  · rw [← Option.some.inj h]
    decide

theorem fit_lt {significand : ℕ} (h : significand < 2 ^ 64) (digits : List Char) :
    (fit significand digits).1 < 2 ^ 64 := by
  induction digits generalizing significand with
  | nil => exact h
  | cons d rest ih =>
    unfold fit
    extract_lets next
    split_ifs with hnext
    · exact ih hnext
    · exact h

/-- What is read from a number is finite. -/
theorem isFinite_of_float? {n : Literal} {x : Float} (h : n.float? = some x) :
    x.isFinite = true := by
  unfold float? at h
  obtain ⟨y, hy, rfl⟩ := Option.map_eq_some_iff.mp h
  have hfit : n.parts.1 < 2 ^ 64 := fit_lt (fit_lt (by norm_num) _) _
  have hfinite := isFinite_scale? (isFinite_countToFloat hfit) hy
  split_ifs
  · exact isFinite_neg hfinite
  · exact hfinite

/-! ## Numbers of few digits -/

theorem le_digitsFrom (n : ℕ) (ds : List Char) : n ≤ digitsFrom n ds := by
  induction ds generalizing n with
  | nil => exact le_rfl
  | cons d ds ih => exact (by omega : n ≤ 10 * n + (d.toNat - 48)).trans (ih _)

/-- All digits count as long as they fit. -/
theorem fit_eq {n : ℕ} {ds : List Char} (h : digitsFrom n ds < 2 ^ 64) :
    fit n ds = (digitsFrom n ds, ds.length) := by
  induction ds generalizing n with
  | nil => rfl
  | cons d ds ih =>
    have hrest : digitsFrom (digitsFrom n [d]) ds < 2 ^ 64 := h
    have hnext : digitsFrom n [d] < 0x10000000000000000 := (le_digitsFrom _ ds).trans_lt hrest
    rw [fit, if_pos hnext, ih hrest]
    rfl

theorem parts_eq {n : Literal} (h : n.decimal.digits < 2 ^ 64) :
    n.parts = (n.decimal.digits, n.decimal.exponent) := by
  rw [decimal, digitsFrom_append] at h
  have hwhole := fit_eq ((le_digitsFrom _ n.fraction).trans_lt h)
  have hexponent : (n.whole.length : ℤ) - n.whole.length - n.fraction.length
      + exponentValue n.exponent = exponentValue n.exponent - n.fraction.length := by ring
  rw [decimal, digitsFrom_append]
  dsimp only
  rw [← hexponent, parts, hwhole]
  dsimp only
  rw [fit_eq h]
  rfl

/-- The greatest of the powers of ten that are doubles as they are. -/
def exactPower : ℕ := 22

/-- Whether a double is the given count. -/
def isCount (n : ℕ) (x : Float) : Bool :=
  !isNegative x && (size? x).any fun (mantissa, exponent) =>
    (quotient mantissa exponent).1 = n * (quotient mantissa exponent).2

theorem value_of_isCount {n : ℕ} {x : Float} (h : isCount n x = true) : value x = n := by
  simp only [isCount, Bool.and_eq_true, Bool.not_eq_true', Option.any_eq_true, Prod.exists,
    decide_eq_true_eq] at h
  obtain ⟨hsign, mantissa, exponent, hsize, hcount⟩ := h
  have hden : ((quotient mantissa exponent).2 : ℚ) ≠ 0 :=
    Nat.cast_ne_zero.mpr (quotient_den_pos mantissa exponent).ne'
  rw [value_of_not_isNegative hsign, size_pattern hsize, ← quotient_eq, hcount, Nat.cast_mul,
    mul_div_cancel_right₀ _ hden]

theorem value_powerOfTen {n : ℕ} (h : n ≤ exactPower) : value (powerOfTen n) = 10 ^ n := by
  have hall : ∀ n < exactPower + 1, isCount (10 ^ n) (powerOfTen n) = true := by decide
  rw [value_of_isCount (hall n (Nat.lt_succ_of_le h)), Nat.cast_pow, Nat.cast_ofNat]

theorem scale?_zero {exponent : ℤ} (hlow : -exactPower ≤ exponent)
    (hhigh : exponent ≤ exactPower) : scale? (countToFloat 0) exponent = some 0.0 := by
  have hall : ∀ k < exactPower + 1, scale? (countToFloat 0) (k : ℤ) = some 0.0 ∧
      scale? (countToFloat 0) (-k : ℤ) = some 0.0 := by decide
  obtain ⟨k, rfl | rfl⟩ := exponent.eq_nat_or_neg
  · exact (hall k (by omega)).1
  · exact (hall k (by omega)).2

/-- Neither the count nor the power of ten is rounded, only what the reader makes of the two. -/
theorem exists_scale? {digits : ℕ} (hdigits : digits < 2 ^ 53) {exponent : ℤ}
    (hlow : -exactPower ≤ exponent) (hhigh : exponent ≤ exactPower) :
    ∃ y, scale? (countToFloat digits) exponent = some y ∧
      Rounds false (Decimal.value ⟨digits, exponent⟩) y := by
  rcases Nat.eq_zero_or_pos digits with rfl | hpos
  · refine ⟨0.0, scale?_zero hlow hhigh, ?_⟩
    have hvalue : Decimal.value ⟨0, exponent⟩ = size 0 := by
      rw [Decimal.value, Nat.cast_zero, zero_mul, size_zero]
    rw [hvalue]
    exact rounds_of_isNearest (by decide) (IsNearest.of_size 0) (by decide)
  obtain ⟨-, hfinite, hvalue⟩ : _ ∧ (countToFloat digits).isFinite = true ∧
    value (countToFloat digits) = digits := isReading_count hdigits
  have hpos' : (0 : ℚ) < digits := Nat.cast_pos.mpr hpos
  rcases le_or_gt 0 exponent with hnonneg | hneg
  · obtain ⟨k, rfl⟩ := Int.eq_ofNat_of_zero_le hnonneg
    have hk : k ≤ exactPower := by omega
    have hpower : k ≤ greatestPower := hk.trans (by decide)
    have hrounds : RoundsTo (digits * 10 ^ k) (countToFloat digits * powerOfTen k) := by
      have h := roundsTo_mul hfinite (isFinite_powerOfTen hpower) (by
        rw [hvalue, value_powerOfTen hk]
        positivity)
      rwa [hvalue, value_powerOfTen hk] at h
    have hscaled : (countToFloat digits * powerOfTen k).isFinite = true := by
      rw [hrounds.isFinite_iff, abs_of_pos (by positivity)]
      calc (digits : ℚ) * 10 ^ k ≤ 2 ^ 53 * 10 ^ 22 := by
            gcongr
            · exact_mod_cast hdigits.le
            · norm_num
            · exact hk
        _ ≤ 10 ^ 38 := by norm_num
        _ ≤ 10 ^ 308 := pow_le_pow_right₀ (by norm_num) (by norm_num)
        _ < 2 ^ 1024 - 2 ^ 970 := pow_ten_lt_overflow
    refine ⟨_, ?_, hrounds.rounds (by positivity)⟩
    simp only [scale?, Int.toNat_natCast]
    rw [if_pos (Int.natCast_nonneg k), if_pos (by exact_mod_cast hpower), if_pos hscaled]
  · obtain ⟨k, hk⟩ := Int.eq_ofNat_of_zero_le (show 0 ≤ -exponent by omega)
    obtain rfl : exponent = -k := by omega
    have hexact : k ≤ exactPower := by omega
    have hpower : k ≤ greatestPower := hexact.trans (by decide)
    have hrounds : RoundsTo (digits / 10 ^ k) (countToFloat digits / powerOfTen k) := by
      have h := roundsTo_div hfinite (isFinite_powerOfTen hpower) (by
        rw [hvalue, value_powerOfTen hexact]
        positivity)
      rwa [hvalue, value_powerOfTen hexact] at h
    have hsize : Decimal.value ⟨digits, -k⟩ = digits / 10 ^ k := by
      rw [Decimal.value, zpow_neg, zpow_natCast, div_eq_mul_inv]
    refine ⟨_, ?_, hsize ▸ hrounds.rounds (by positivity)⟩
    simp only [scale?, neg_neg, Int.toNat_natCast]
    rw [if_neg hneg.not_ge, if_pos (by omega)]

theorem float?_eq {n : Literal} (hdigits : n.decimal.digits < 2 ^ 53)
    (hlow : -exactPower ≤ n.decimal.exponent) (hhigh : n.decimal.exponent ≤ exactPower) {x : Float}
    (h : Rounds n.negative n.decimal.value x) : n.float? = some x := by
  obtain ⟨y, hy, hrounds⟩ := exists_scale? hdigits hlow hhigh
  have hparts : n.parts = (n.decimal.digits, n.decimal.exponent) := parts_eq (by omega)
  rw [float?, hparts]
  dsimp only
  rw [hy, Option.map_some, Option.some.injEq]
  obtain ⟨bits, hnearest⟩ := exists_isNearest n.decimal.value_nonneg
  have hpattern : pattern y = pattern x :=
    (hrounds.pattern_eq hnearest).trans (h.pattern_eq hnearest).symm
  have hfinite : y.isFinite = true := isFinite_scale? (isFinite_countToFloat (by omega)) hy
  cases hn : n.negative with
  | false =>
    rw [if_neg (by simp)]
    exact ext_pattern (hrounds.sign.trans (h.sign.trans hn).symm) hpattern
  | true =>
    obtain ⟨hsign, hsame⟩ := sign_neg_and_pattern_neg hfinite
    rw [if_pos rfl]
    refine ext_sign ?_ (hsame.trans hpattern)
    rw [hsign, sign_eq_positive_iff.mpr hrounds.sign, sign_eq_negative_iff.mpr (h.sign.trans hn)]
    rfl

end Json.Literal

/-! ## Saved doubles -/

/-- What a finite double is saved as is read as that double. -/
def ReadsBack (x : Float) : Prop :=
  x.isFinite = true →
    (Json.Literal.ofText? (Style.saved.text x).toList).bind Json.Literal.float? = some x

instance (x : Float) : Decidable (ReadsBack x) := inferInstanceAs (Decidable (_ → _))

/-- Doubles with a number of few digits read back. -/
theorem readsBack_of_short {x : Float}
    (h : ∀ n, Json.Literal.ofText? (Style.saved.text x).toList = some n →
      n.decimal.digits < 2 ^ 53 ∧ -Json.Literal.exactPower ≤ n.decimal.exponent ∧
        n.decimal.exponent ≤ Json.Literal.exactPower) : ReadsBack x := by
  intro hx
  obtain ⟨n, hsound, htext, hrounds⟩ := Json.exists_literal hx
  rw [htext, hsound.ofText?_text] at h ⊢
  obtain ⟨hdigits, hlow, hhigh⟩ := h n rfl
  exact Json.Literal.float?_eq hdigits hlow hhigh hrounds

/-- The last place is lost in a number of seventeen digits, whose digits are rounded before they
are divided. -/
example : ¬ ReadsBack 1.4000000000000001 := by decide

namespace Json.Tree

variable {x : Float}

theorem float?_ofFloat (hx : x.isFinite = true) (h : ReadsBack x) :
    float? (ofFloat x) = some x := by
  rw [ofFloat, if_pos hx]
  exact h hx

theorem ofFloat_of_not_isFinite (hx : x.isFinite = false) : ofFloat x = .null := by
  rw [ofFloat, if_neg (Bool.eq_false_iff.mp hx)]

/-- No double is read in place of one that is not finite. -/
theorem isFinite_of_ofFloat {y : Float} (h : float? (ofFloat x) = some y) : x.isFinite = true := by
  cases hx : x.isFinite with
  | true => rfl
  | false => rw [ofFloat_of_not_isFinite hx] at h; exact absurd h (by simp [float?])

theorem isFinite_of_float? {tree : Tree} (h : float? tree = some x) : x.isFinite = true := by
  unfold float? at h
  split at h
  · obtain ⟨n, -, hn⟩ := Option.bind_eq_some_iff.mp h
    exact Literal.isFinite_of_float? hn
  · exact absurd h (by simp)

theorem isWritten_ofFloat (x : Float) : (ofFloat x).IsWritten := by
  unfold ofFloat
  split_ifs with hx
  · obtain ⟨n, hsound, htext, -⟩ := exists_literal hx
    rw [htext]
    exact .number hsound.isNumber_text
  · exact .null

end Json.Tree

end Soundstage
