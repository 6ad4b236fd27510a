import Soundstage.Number.Scalar
import Soundstage.Proofs.Number.Clock

/-!
# Rounding keeps order

A double that is not below an exact result is not below the rounded one either, and the same holds
above. So comparisons with doubles can be taken from the exact results, and what is exact is not
rounded. With these laws a whole part is found, and products of clock readings are clock readings.
-/

open Float.Model Float.Model.UnpackedFloat

namespace Soundstage.Binary64

variable {x y z : Float} {a : ℚ}

/-- A number and the double that it is rounded to have the same sign. -/
theorem RoundsTo.abs_value_sub (h : RoundsTo a x) : |value x - a| = |size (pattern x) - abs a| := by
  have hsign := h.sign
  rcases lt_or_ge a 0 with hneg | hnonneg
  · rw [value_of_isNegative (hsign.trans (decide_eq_true hneg)), abs_of_neg hneg, ← abs_neg]
    congr 1
    ring
  · rw [value_of_not_isNegative (hsign.trans (decide_eq_false hnonneg.not_gt)),
      abs_of_nonneg hnonneg]

/-- No finite double is nearer to a number than the one it is rounded to. -/
theorem RoundsTo.abs_value_sub_le_abs (h : RoundsTo a x) (hx : x.isFinite = true)
    (hy : y.isFinite = true) : |value x - a| ≤ |value y - a| := by
  have hsize : |size (pattern x) - abs a| ≤ |size (pattern y) - abs a| :=
    h.nearest _ (mem_magnitude?_iff.mpr ⟨(isFinite_iff x).mp hx, rfl⟩) y _
      (mem_magnitude?_iff.mpr ⟨(isFinite_iff y).mp hy, rfl⟩)
  rw [h.abs_value_sub]
  refine hsize.trans ?_
  rw [← abs_value y]
  exact abs_abs_sub_abs_le _ _

theorem RoundsTo.value_le_value (h : RoundsTo a x) (hx : x.isFinite = true)
    (hy : y.isFinite = true) (hle : a ≤ value y) : value x ≤ value y := by
  have hnear := h.abs_value_sub_le_abs hx hy
  rw [abs_of_nonneg (sub_nonneg.mpr hle)] at hnear
  linarith [le_abs_self (value x - a)]

theorem RoundsTo.value_ge_value (h : RoundsTo a x) (hx : x.isFinite = true)
    (hy : y.isFinite = true) (hle : value y ≤ a) : value y ≤ value x := by
  have hnear := h.abs_value_sub_le_abs hx hy
  rw [abs_of_nonpos (sub_nonpos.mpr hle)] at hnear
  linarith [neg_le_abs (value x - a)]

/-- What lies below a finite double is not rounded to infinity. -/
theorem RoundsTo.isFinite_of_le (h : RoundsTo a x) (hy : y.isFinite = true) (ha : 0 ≤ a)
    (hle : a ≤ value y) : x.isFinite = true := by
  rw [h.isFinite_iff, abs_of_nonneg ha]
  exact hle.trans_lt ((le_abs_self _).trans_lt (abs_value_lt hy))

/-- What is a double is not rounded. -/
theorem RoundsTo.value_eq_value (h : RoundsTo (value y) x) (hy : y.isFinite = true) :
    x.isFinite = true ∧ value x = value y :=
  h.value_eq (abs_value y) ((isFinite_iff y).mp hy)

/-- Rounding at most doubles what is not negative. -/
theorem RoundsTo.value_le_two_mul (h : RoundsTo a x) (hx : x.isFinite = true) (ha : 0 ≤ a) :
    value x ≤ 2 * a := by
  have hsize : size? (0.0 : Float) = some (0, leastExponent) := by decide
  have hzero : (0.0 : Float).isFinite = true ∧ value 0.0 = 0 :=
    ⟨by decide, value_of_size?_zero hsize⟩
  have hnear := h.abs_value_sub_le_abs hx hzero.1
  rw [hzero.2, zero_sub, abs_neg, abs_of_nonneg ha] at hnear
  linarith [le_abs_self (value x - a)]

/-- Where doubles have all their digits, a result lies within its `2 ^ 53`th part. -/
theorem RoundsTo.value_between (h : RoundsTo a x) (hx : x.isFinite = true)
    (ha : 2 ^ (-1022 : ℤ) ≤ a) :
    a * (1 - 1 / 2 ^ 53) ≤ value x ∧ value x ≤ a * (1 + 1 / 2 ^ 53) := by
  have hnear := abs_le.mp (h.abs_value_sub_le hx ha)
  constructor <;> linarith [hnear.1, hnear.2]

/-- Elsewhere it may be moved by less than the least number with all its digits. -/
theorem RoundsTo.value_le_add (h : RoundsTo a x) (hx : x.isFinite = true) (ha : 0 ≤ a) :
    value x ≤ a * (1 + 1 / 2 ^ 53) + 2 ^ (-1022 : ℤ) := by
  have hleast : (0 : ℚ) < 2 ^ (-1022 : ℤ) := by positivity
  rcases le_or_gt (2 ^ (-1022 : ℤ)) a with hnormal | hsmall
  · linarith [(h.value_between hx hnormal).2]
  · linarith [h.value_le_two_mul hx ha]

/-- The number of a double whose bits are known. -/
theorem value_of_parts {mantissa : ℕ} {exponent : ℤ} (hsign : isNegative x = false)
    (hsize : size? x = some (mantissa, exponent)) :
    x.isFinite = true ∧ value x = mantissa * 2 ^ exponent := by
  refine ⟨(isFinite_iff x).mpr (pattern_lt_of_size? hsize), ?_⟩
  rw [value_of_not_isNegative hsign, size_pattern hsize]

theorem value_millionth : (Scalar.millionth : Float).isFinite = true ∧
    value Scalar.millionth = (4722366482869645 : ℕ) * 2 ^ (-72 : ℤ) :=
  value_of_parts (by decide) (by decide)

theorem millionth_pos : 0 < value (Scalar.millionth : Float) := by
  rw [value_millionth.2]
  positivity

/-! ### Whole parts -/

/-- Core takes the whole part of a number by dropping the digits behind it. -/
theorem roundToInt_positive (mantissa : ℕ) (exponent : ℤ) :
    ∃ n : ℕ, roundToInt .positive mantissa exponent = n ∧
      (n : ℚ) ≤ mantissa * 2 ^ exponent ∧ mantissa * 2 ^ exponent < (n + 1 : ℚ) := by
  set shifted := decreaseExponent mantissa exponent 0 with hshifted
  have hexponent : shifted.2 ≤ 0 := decreaseExponent_le _ _ _
  obtain ⟨places, hplaces⟩ := Int.eq_ofNat_of_zero_le (neg_nonneg.mpr hexponent)
  have hvalue : (shifted.1 : ℚ) / 2 ^ places = mantissa * 2 ^ exponent := by
    rw [← decreaseExponent_eq mantissa exponent 0, ← hshifted, ← neg_neg shifted.2, hplaces,
      zpow_neg, zpow_natCast, div_eq_mul_inv]
  have hstands := (stands_exact shifted.1).shiftRight places
  rw [hvalue] at hstands
  refine ⟨_, ?_, hstands.mantissa_le, hstands.lt_mantissa⟩
  have hshift : (0 - shifted.2).toNat = places := by omega
  unfold roundToInt
  rw [← hshifted]
  dsimp only
  rw [shiftToExponent_eq hexponent, hshift]
  rfl

/-- The whole part of a number below `2 ^ 64` is what its name says. -/
theorem wholePart_between_of_lt (hx : x.isFinite = true) (hnonneg : 0 ≤ value x)
    (hlt : value x < 2 ^ 64) :
    (Scalar.wholePart x : ℚ) ≤ value x ∧ value x < Scalar.wholePart x + 1 := by
  have hword {n : ℕ} (hn : (n : ℚ) < 2 ^ 64) : (UInt64.ofNatClamp n).toNat = n := by
    have hsmall : n < UInt64.size := by exact_mod_cast hn
    rw [UInt64.ofNatClamp, dif_pos hsmall]
    rfl
  have hcount : Scalar.wholePart x
      = (UInt64.ofNatClamp (x.toModel.unpack.toInt 0 (2 ^ 64 - 1)).toNat).toNat := rfl
  rcases finite_cases hx with ⟨exponent, hsize⟩ | ⟨mantissa, exponent, hpos, hsize⟩
  · rw [hcount, unpack_of_size?_zero hsize, value_of_size?_zero hsize, UnpackedFloat.toInt,
      Int.toNat_zero, hword (by norm_num)]
    norm_num
  · have hpositive : 0 < size (pattern x) := size_pattern_pos hsize hpos
    have hsign : isNegative x = false := by
      by_contra hneg
      rw [value_of_isNegative (by simpa using hneg)] at hnonneg
      linarith
    rw [value_of_not_isNegative hsign, size_pattern hsize] at hlt ⊢
    obtain ⟨n, hn, hle, hgt⟩ := roundToInt_positive mantissa exponent
    rw [hcount, unpack_of_size? hsize hpos, sign_eq_positive_iff.mpr hsign, UnpackedFloat.toInt, hn,
      Int.toNat_natCast, hword (hle.trans_lt hlt)]
    exact ⟨hle, hgt⟩

/-! ### Clock readings -/

theorem isReading_of_pos (hx : x.isFinite = true) (hpos : 0 < value x) : IsReading x := by
  have hrounds := roundsTo_value hx hpos.ne'
  exact ⟨hrounds.sign.trans (decide_eq_false hpos.not_gt), hrounds.defined⟩

/-- Readings are compared as their patterns are, as `IsReading.le_iff_pattern_le` says too. -/
theorem IsReading.lt_iff_pattern_lt (hx : IsReading x) (hy : IsReading y) :
    x < y ↔ pattern x < pattern y := by
  have hcompare : x < y ↔ x.toModel.unpack.compare y.toModel.unpack = some .lt := by
    change decide ((x.toModel.unpack.compare y.toModel.unpack == some .lt) = true) = true ↔ _
    rw [decide_eq_true_iff, beq_iff_eq]
  cases hxf : x.isFinite with
  | false =>
      rw [hcompare, hx.unpack_eq hxf, hx.pattern_eq hxf]
      cases hyf : y.isFinite with
      | false =>
          rw [hy.unpack_eq hyf, hy.pattern_eq hyf]
          exact iff_of_false (by decide) (lt_irrefl _)
      | true =>
          rw [(compare_unpack_infinity hyf).2]
          exact iff_of_false (by decide) hy.pattern_le.not_gt
  | true =>
      cases hyf : y.isFinite with
      | false =>
          rw [hcompare, hy.unpack_eq hyf, hy.pattern_eq hyf, (compare_unpack_infinity hxf).1]
          exact iff_of_true rfl ((isFinite_iff x).mp hxf)
      | true =>
          rw [lt_iff_value_lt hxf hyf, value_of_not_isNegative hx.sign,
            value_of_not_isNegative hy.sign]
          exact size_strictMono.lt_iff_lt

theorem IsReading.not_lt (hx : IsReading x) (hy : IsReading y) : ¬ x < y ↔ y ≤ x := by
  rw [hx.lt_iff_pattern_lt hy, hy.le_iff_pattern_le hx, Nat.not_lt]

/-- No finite number is below what is left when an endless time is taken away. -/
theorem not_lt_sub_posInfinity (hx : x.isFinite = true) (hy : y.isFinite = true) :
    ¬ y < x - posInfinity := by
  have hpacked : (packed (.infinity .negative)).toModel.unpack = .infinity .negative := by
    have hsign : sign (packed (.infinity .negative)) = .negative :=
      sign_eq_negative_iff.mpr (by decide)
    rw [unpack_of_pattern_eq (by decide), hsign]
  have hrest : x - posInfinity
      = packed (UnpackedFloat.sub Format.binary64 x.toModel.unpack posInfinity.toModel.unpack) :=
    rfl
  have hunpack : (x - posInfinity).toModel.unpack = .infinity .negative := by
    rw [hrest, unpack_posInfinity]
    rcases finite_cases hx with ⟨exponent, hsize⟩ | ⟨mantissa, exponent, hpos, hsize⟩
    · rw [unpack_of_size?_zero hsize]
      exact hpacked
    · rw [unpack_of_size? hsize hpos]
      exact hpacked
  change ¬ decide ((y.toModel.unpack.compare (x - posInfinity).toModel.unpack == some .lt) = true)
    = true
  rw [hunpack, decide_eq_true_iff]
  rcases finite_cases hy with ⟨exponent, hsize⟩ | ⟨mantissa, exponent, hpos, hsize⟩
  · rw [unpack_of_size?_zero hsize]
    cases Binary64.sign y <;> exact Bool.false_ne_true
  · rw [unpack_of_size? hsize hpos]
    cases Binary64.sign y <;> exact Bool.false_ne_true

/-- Products of what clocks show that have not run over are shown by clocks. -/
theorem IsReading.mul (hx : IsReading x) (hy : IsReading y) (hxf : x.isFinite = true)
    (hyf : y.isFinite = true) : IsReading (x * y) := by
  by_cases hne : value x * value y = 0
  · have hproduct : x * y
        = packed (UnpackedFloat.mul Format.binary64 x.toModel.unpack y.toModel.unpack) := rfl
    have hzero : x * y = packed (.zero .positive) := by
      have hxs : Binary64.sign x = .positive := sign_eq_positive_iff.mpr hx.sign
      have hys : Binary64.sign y = .positive := sign_eq_positive_iff.mpr hy.sign
      rw [hproduct]
      rcases finite_cases hxf with ⟨exponent, hsize⟩ | ⟨mantissa, exponent, hpos, hsize⟩ <;>
        rcases finite_cases hyf with ⟨exponent', hsize'⟩ | ⟨mantissa', exponent', hpos', hsize'⟩
      · rw [unpack_of_size?_zero hsize, unpack_of_size?_zero hsize', hxs, hys]
        rfl
      · rw [unpack_of_size?_zero hsize, unpack_of_size? hsize' hpos', hxs, hys]
        rfl
      · rw [unpack_of_size? hsize hpos, unpack_of_size?_zero hsize', hxs, hys]
        rfl
      · rw [value_of_not_isNegative hx.sign, value_of_not_isNegative hy.sign] at hne
        exact absurd hne (mul_pos (size_pattern_pos hsize hpos) (size_pattern_pos hsize' hpos')).ne'
    rw [hzero]
    exact ⟨by decide, by decide⟩
  · have hrounds := roundsTo_mul hxf hyf hne
    have hnonneg := mul_nonneg hx.value_nonneg hy.value_nonneg
    exact ⟨hrounds.sign.trans (decide_eq_false hnonneg.not_gt), hrounds.defined⟩

theorem value_sub_of_zero (hx : x.isFinite = true) (hy : y.isFinite = true) (hxz : value x = 0)
    (hyz : value y = 0) : value (x - y) = 0 := by
  have hall : ∀ x ∈ [(0.0 : Float), -0.0], ∀ y ∈ [(0.0 : Float), -0.0], pattern (x - y) = 0 := by
    decide
  rw [value, hall x (by simpa using eq_zero_of_value hx hxz) y
    (by simpa using eq_zero_of_value hy hyz), size_zero, mul_zero]

/-- What is moved on by a length that fits before a reading does not go beyond that reading. -/
theorem IsReading.value_add_le (hx : IsReading x) (hy : IsReading y) (hxf : x.isFinite = true)
    (hyf : y.isFinite = true) (hz : z.isFinite = true) (hle : value x + value y ≤ value z) :
    (x + y).isFinite = true ∧ value (x + y) ≤ value z ∧
      value (x + y) ≤ (value x + value y) * (1 + 1 / 2 ^ 53) + 2 ^ (-1022 : ℤ) := by
  have hsum := add_nonneg hx.value_nonneg hy.value_nonneg
  by_cases hzero : value x = 0 ∧ value y = 0
  · have hall : ∀ x ∈ [(0.0 : Float), -0.0], ∀ y ∈ [(0.0 : Float), -0.0],
        (x + y).isFinite = true ∧ pattern (x + y) = 0 := by decide
    obtain ⟨hfinite, hpattern⟩ := hall x (by simpa using eq_zero_of_value hxf hzero.1) y
      (by simpa using eq_zero_of_value hyf hzero.2)
    have hvalue : value (x + y) = 0 := by rw [value, hpattern, size_zero, mul_zero]
    rw [hvalue]
    exact ⟨hfinite, hsum.trans hle, by positivity⟩
  · have hrounds := roundsTo_add hxf hyf (by tauto)
    have hfinite := hrounds.isFinite_of_le hz hsum hle
    exact ⟨hfinite, hrounds.value_le_value hfinite hz hle, hrounds.value_le_add hfinite hsum⟩

/-- Counts are shown by clocks. -/
theorem isReading_count {n : ℕ} (h : n < 2 * mantissaFloor) :
    IsReading (Scalar.ofNat n) ∧ (Scalar.ofNat n : Float).isFinite = true ∧
      value (Scalar.ofNat n) = n := by
  have hsmall : n < 0x10000000000000000 := h.trans (by decide)
  have hword : n.toUInt64.toNat = n := UInt64.toNat_ofNat_of_lt' hsmall
  have hcount : (Scalar.ofNat n : Float) = n.toUInt64.toFloat := by
    show countToFloat n = _
    rw [countToFloat, if_pos hsmall]
  obtain ⟨hfinite, hvalue⟩ := value_toFloat (n := n.toUInt64) (by rwa [hword])
  rw [hword] at hvalue
  rw [hcount]
  refine ⟨?_, hfinite, hvalue⟩
  rcases Nat.eq_zero_or_pos n with rfl | hpos
  · exact ⟨by decide, by decide⟩
  · exact isReading_of_pos hfinite (by rw [hvalue]; exact_mod_cast hpos)

end Soundstage.Binary64
