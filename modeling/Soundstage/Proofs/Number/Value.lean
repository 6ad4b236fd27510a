import Mathlib
import Soundstage.Number.Scalar
import Soundstage.Proofs.Number.Rounds

/-!
# The numbers of finite doubles

`value` is the number that a finite double stands for. Core compares doubles by their exponents and
then by their mantissas, which is the order of these numbers, as `lt_iff_value_lt` and
`le_iff_value_le` say.
-/

open Float.Model Float.Model.UnpackedFloat

namespace Soundstage.Binary64

/-- The number that a finite double stands for. -/
def value (x : Float) : ℚ := (if isNegative x then -1 else 1) * size (pattern x)

variable {x y : Float} {mantissa : ℕ} {exponent : ℤ}

theorem value_of_size? (h : size? x = some (mantissa, exponent)) :
    value x = ((sign x).apply mantissa : ℤ) * 2 ^ exponent := by
  rw [value, size_pattern h, sign]
  split_ifs <;> simp [Sign.apply]

theorem value_of_size?_zero (h : size? x = some (0, exponent)) : value x = 0 := by
  rw [value_of_size? h]
  cases sign x <;> simp [Sign.apply]

theorem abs_value (x : Float) : |value x| = size (pattern x) := by
  rw [value, abs_mul, abs_of_nonneg (size_nonneg _)]
  split_ifs <;> simp

theorem value_of_isNegative (h : isNegative x = true) : value x = -size (pattern x) := by
  rw [value, h, if_pos rfl, neg_one_mul]

theorem value_of_not_isNegative (h : isNegative x = false) : value x = size (pattern x) := by
  rw [value, h, if_neg Bool.false_ne_true, one_mul]

/-- A finite double is zero, or it has a mantissa that is not. -/
theorem finite_cases (h : x.isFinite = true) : (∃ exponent, size? x = some (0, exponent)) ∨
    ∃ mantissa exponent, 0 < mantissa ∧ size? x = some (mantissa, exponent) := by
  rw [isFinite_iff] at h
  rcases form_cases x with hnan | hinf | hform
  · exact absurd h hnan.not_gt
  · exact absurd h hinf.not_lt
  · exact hform

/-- Exponents and mantissas in their order are sizes in their order. -/
theorem compare_grid {row row' place place' : ℕ} (h : IsPlace row place)
    (hlt : place < 2 * mantissaFloor) (h' : IsPlace row' place')
    (hlt' : place' < 2 * mantissaFloor) :
    (compare (row + leastExponent : ℤ) (row' + leastExponent)).then (compare place place')
      = compare (size (row * mantissaFloor + place)) (size (row' * mantissaFloor + place')) := by
  have hbelow {row row' place place' : ℕ} (hlt : place < 2 * mantissaFloor)
      (h' : IsPlace row' place') (hrow : row < row') :
      row * mantissaFloor + place < row' * mantissaFloor + place' := by
    have hfloor := h'.2.resolve_left (by omega)
    have hstep : (row + 1) * mantissaFloor ≤ row' * mantissaFloor := Nat.mul_le_mul_right _ hrow
    rw [Nat.succ_mul] at hstep
    omega
  rcases lt_trichotomy row row' with hrow | rfl | hrow
  · have hsize := size_strictMono (hbelow hlt h' hrow)
    rw [compare_lt_iff_lt.mpr hsize, Int.compare_eq_lt.mpr (by omega)]
    rfl
  · rw [Int.compare_eq_eq.mpr rfl, Ordering.eq_then]
    rw [← cmp_eq_compare, ← cmp_eq_compare, size_strictMono.cmp_map_eq]
    rcases lt_trichotomy place place' with hplace | rfl | hplace
    · rw [cmp_eq_lt_iff _ _ |>.mpr hplace, cmp_eq_lt_iff _ _ |>.mpr (by omega)]
    · rw [cmp_self_eq_eq, cmp_self_eq_eq]
    · rw [cmp_eq_gt_iff _ _ |>.mpr hplace, cmp_eq_gt_iff _ _ |>.mpr (by omega)]
  · have hsize := size_strictMono (hbelow hlt' h hrow)
    rw [compare_gt_iff_gt.mpr hsize, Int.compare_eq_gt.mpr (by omega)]
    rfl

theorem compare_size? {mantissa' : ℕ} {exponent' : ℤ} (h : size? x = some (mantissa, exponent))
    (h' : size? y = some (mantissa', exponent')) :
    (compare exponent exponent').then (compare mantissa mantissa')
      = compare (size (pattern x)) (size (pattern y)) := by
  obtain ⟨row, rfl, hpattern, hplace, hlt⟩ := size?_grid h
  obtain ⟨row', rfl, hpattern', hplace', hlt'⟩ := size?_grid h'
  rw [hpattern, hpattern', compare_grid hplace hlt hplace' hlt']

theorem compare_neg_neg (a b : ℚ) : compare (-a) (-b) = (compare a b).swap := by
  rcases lt_trichotomy a b with h | rfl | h
  · rw [compare_lt_iff_lt.mpr h, compare_gt_iff_gt.mpr (neg_lt_neg h)]
    rfl
  · rw [compare_eq_iff_eq.mpr rfl, compare_eq_iff_eq.mpr rfl]
    rfl
  · rw [compare_gt_iff_gt.mpr h, compare_lt_iff_lt.mpr (neg_lt_neg h)]
    rfl

theorem size_pattern_pos (h : size? x = some (mantissa, exponent)) (hpos : 0 < mantissa) :
    0 < size (pattern x) := by
  rw [size_pattern h]
  positivity

/-- Core compares finite doubles as the numbers that they stand for. -/
theorem compare_unpack (hx : x.isFinite = true) (hy : y.isFinite = true) :
    x.toModel.unpack.compare y.toModel.unpack = some (compare (value x) (value y)) := by
  rcases finite_cases hx with ⟨exponent, h⟩ | ⟨mantissa, exponent, hpos, h⟩ <;>
    rcases finite_cases hy with ⟨exponent', h'⟩ | ⟨mantissa', exponent', hpos', h'⟩
  · rw [unpack_of_size?_zero h, unpack_of_size?_zero h', value_of_size?_zero h,
      value_of_size?_zero h', compare_eq_iff_eq.mpr rfl]
    rfl
  · have hsize := size_pattern_pos h' hpos'
    rw [unpack_of_size?_zero h, unpack_of_size? h' hpos', value_of_size?_zero h]
    cases hs : sign y with
    | negative =>
      rw [value_of_isNegative (sign_eq_negative_iff.mp hs),
        compare_gt_iff_gt.mpr (neg_lt_zero.mpr hsize)]
      rfl
    | positive =>
      rw [value_of_not_isNegative (sign_eq_positive_iff.mp hs), compare_lt_iff_lt.mpr hsize]
      rfl
  · have hsize := size_pattern_pos h hpos
    rw [unpack_of_size? h hpos, unpack_of_size?_zero h', value_of_size?_zero h']
    cases hs : sign x with
    | negative =>
      rw [value_of_isNegative (sign_eq_negative_iff.mp hs),
        compare_lt_iff_lt.mpr (neg_lt_zero.mpr hsize)]
      rfl
    | positive =>
      rw [value_of_not_isNegative (sign_eq_positive_iff.mp hs), compare_gt_iff_gt.mpr hsize]
      rfl
  · have hsize := size_pattern_pos h hpos
    have hsize' := size_pattern_pos h' hpos'
    rw [unpack_of_size? h hpos, unpack_of_size? h' hpos']
    cases hs : sign x <;> cases hs' : sign y <;>
      simp only [sign_eq_negative_iff, sign_eq_positive_iff] at hs hs'
    · rw [value_of_isNegative hs, value_of_isNegative hs', compare_neg_neg, ← compare_size? h h']
      rfl
    · rw [value_of_isNegative hs, value_of_not_isNegative hs',
        compare_lt_iff_lt.mpr (by linarith)]
      rfl
    · rw [value_of_not_isNegative hs, value_of_isNegative hs',
        compare_gt_iff_gt.mpr (by linarith)]
      rfl
    · rw [value_of_not_isNegative hs, value_of_not_isNegative hs', ← compare_size? h h']
      rfl

theorem lt_iff_value_lt (hx : x.isFinite = true) (hy : y.isFinite = true) :
    x < y ↔ value x < value y := by
  change decide ((x.toModel.unpack.compare y.toModel.unpack == some .lt) = true) = true ↔ _
  rw [decide_eq_true_iff, compare_unpack hx hy, ← compare_lt_iff_lt]
  simp

theorem le_iff_value_le (hx : x.isFinite = true) (hy : y.isFinite = true) :
    x ≤ y ↔ value x ≤ value y := by
  change decide ((x.toModel.unpack.compare y.toModel.unpack).any (·.isLE) = true) = true ↔ _
  rw [decide_eq_true_iff, compare_unpack hx hy, ← compare_le_iff_le]
  simp [Ordering.isLE_iff_ne_gt]

theorem value_zero : (Scalar.zero : Float).isFinite = true ∧ value Scalar.zero = 0 := by
  have hsize : size? (Scalar.zero : Float) = some (0, leastExponent) := by decide
  exact ⟨by decide, value_of_size?_zero hsize⟩

/-- The lengths are the finite doubles that stand for a number above zero. -/
theorem isLength_iff_value_pos : Scalar.IsLength x ↔ x.isFinite = true ∧ 0 < value x := by
  refine and_congr_right fun hx => ?_
  rw [le_iff_value_le hx value_zero.1, value_zero.2, not_le]

end Soundstage.Binary64
