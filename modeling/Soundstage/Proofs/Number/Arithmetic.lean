import Mathlib
import Soundstage.Proofs.Number.Accuracy
import Soundstage.Proofs.Number.Value

/-!
# Arithmetic with doubles

Sums, differences, products and quotients of finite doubles are what the exact results are rounded
to. Products and quotients that are zero are left out, and so are sums of two zeros, since their
signs follow rules of their own.
-/

open Float.Model Float.Model.UnpackedFloat

namespace Soundstage.Binary64

/-- The double that a number is rounded to. -/
def RoundsTo (a : ℚ) (x : Float) : Prop := Rounds (decide (a < 0)) |a| x

variable {x y : Float} {a b : ℚ} {mantissa bits : ℕ} {exponent : ℤ}

theorem RoundsTo.value_eq (h : RoundsTo a x) (hsize : |a| = size bits)
    (hlt : bits < infinityBits) : x.isFinite = true ∧ value x = a := by
  have hpattern : pattern x = bits := by
    rw [RoundsTo, hsize] at h
    rw [h.pattern_eq (IsNearest.of_size bits), min_eq_right hlt.le]
  have hsign := h.sign
  refine ⟨(isFinite_iff x).mpr (hpattern ▸ hlt), ?_⟩
  rcases lt_or_ge a 0 with hneg | hnonneg
  · rw [decide_eq_true hneg] at hsign
    rw [value_of_isNegative hsign, hpattern, ← hsize, abs_of_neg hneg, neg_neg]
  · rw [decide_eq_false hnonneg.not_gt] at hsign
    rw [value_of_not_isNegative hsign, hpattern, ← hsize, abs_of_nonneg hnonneg]

/-- What is rounded from a number that is not negative stays below the doubles above that number. -/
theorem RoundsTo.value_le (h : RoundsTo a x) (ha : 0 ≤ a) (hle : a ≤ size bits)
    (hlt : bits < infinityBits) :
    x.isFinite = true ∧ isNegative x = false ∧ value x ≤ size bits := by
  obtain ⟨nearest, hnearest⟩ := exists_isNearest ha
  have hbits : nearest ≤ bits := hnearest.mono (IsNearest.of_size bits) hle
  have hsign : isNegative x = false := h.sign.trans (decide_eq_false ha.not_gt)
  rw [RoundsTo, abs_of_nonneg ha] at h
  have hpattern := h.pattern_eq hnearest
  refine ⟨(isFinite_iff x).mpr (by omega), hsign, ?_⟩
  rw [value_of_not_isNegative hsign]
  exact size_strictMono.monotone (by omega)

/-- Where doubles have all their digits, a result is off by less than its `2 ^ 53`th part. -/
theorem RoundsTo.abs_value_sub_le (h : RoundsTo a x) (hx : x.isFinite = true)
    (ha : 2 ^ (-1022 : ℤ) ≤ a) : |value x - a| ≤ a / 2 ^ 53 := by
  have hpos : 0 < a := lt_of_lt_of_le (by positivity) ha
  obtain ⟨nearest, hnearest⟩ := exists_isNearest hpos.le
  have hsign : isNegative x = false := h.sign.trans (decide_eq_false hpos.not_gt)
  rw [RoundsTo, abs_of_pos hpos] at h
  have hpattern := h.pattern_eq hnearest
  have hlt := (isFinite_iff x).mp hx
  rw [value_of_not_isNegative hsign, show pattern x = nearest by omega]
  exact hnearest.abs_size_sub_le ha

theorem decide_value_neg (h : value x ≠ 0) : decide (value x < 0) = isNegative x := by
  have hpos : 0 < size (pattern x) := by
    rw [← abs_value]
    exact abs_pos.mpr h
  cases hs : isNegative x with
  | false => exact decide_eq_false (by rw [value_of_not_isNegative hs]; linarith)
  | true => exact decide_eq_true (by rw [value_of_isNegative hs]; linarith)

/-- A finite double that is not zero is what its own number is rounded to. -/
theorem roundsTo_value (hx : x.isFinite = true) (h : value x ≠ 0) : RoundsTo (value x) x := by
  rw [RoundsTo, decide_value_neg h, abs_value]
  exact rounds_of_isNearest rfl (IsNearest.of_size _)
    (min_eq_right ((isFinite_iff x).mp hx).le).symm

/-! ### Negation -/

theorem sign_neg_and_pattern_neg (h : x.isFinite = true) :
    sign (-x) = -sign x ∧ pattern (-x) = pattern x := by
  change sign (packed x.toModel.unpack.neg) = _ ∧ pattern (packed x.toModel.unpack.neg) = _
  rcases finite_cases h with ⟨exponent, h⟩ | ⟨mantissa, exponent, hpos, h⟩
  · rw [unpack_of_size?_zero h, pattern_of_size?_zero h]
    exact packed_zero _
  · rw [unpack_of_size? h hpos]
    exact packed_of_size? h hpos _

theorem isFinite_neg (h : x.isFinite = true) : (-x).isFinite = true := by
  rw [isFinite_iff, (sign_neg_and_pattern_neg h).2, ← isFinite_iff]
  exact h

theorem value_neg (h : x.isFinite = true) : value (-x) = -value x := by
  obtain ⟨hsign, hpattern⟩ := sign_neg_and_pattern_neg h
  cases hs : sign x with
  | negative =>
    rw [value_of_isNegative (sign_eq_negative_iff.mp hs), neg_neg, ← hpattern]
    exact value_of_not_isNegative (sign_eq_positive_iff.mp (by rw [hsign, hs]; rfl))
  | positive =>
    rw [value_of_not_isNegative (sign_eq_positive_iff.mp hs), ← hpattern]
    exact value_of_isNegative (sign_eq_negative_iff.mp (by rw [hsign, hs]; rfl))

theorem unpack_neg (h : x.isFinite = true) : (-x).toModel.unpack = x.toModel.unpack.neg := by
  obtain ⟨hsign, hpattern⟩ := sign_neg_and_pattern_neg h
  have hsize : size? (-x) = size? x := by rw [size?_eq, hpattern, ← size?_eq]
  rcases finite_cases h with ⟨exponent, h⟩ | ⟨mantissa, exponent, hpos, h⟩
  · rw [unpack_of_size?_zero h, unpack_of_size?_zero (hsize.trans h), hsign]
    rfl
  · rw [unpack_of_size? h hpos, unpack_of_size? (hsize.trans h) hpos, hsign]
    rfl

/-! ### Sums and differences -/

theorem apply_decreaseExponent {target : ℤ} (s : Sign) (h : target ≤ exponent) :
    ((s.apply (decreaseExponent mantissa exponent target).1 : ℤ) : ℚ) * 2 ^ target
      = (s.apply mantissa : ℤ) * 2 ^ exponent := by
  have hvalue := decreaseExponent_eq mantissa exponent target
  have htarget : (decreaseExponent mantissa exponent target).2 = target := by
    unfold decreaseExponent
    dsimp only
    omega
  rw [htarget] at hvalue
  cases s <;> simp only [Sign.apply, Int.cast_neg, Int.cast_natCast, neg_mul, hvalue]

theorem roundsTo_add (hx : x.isFinite = true) (hy : y.isFinite = true)
    (h : value x ≠ 0 ∨ value y ≠ 0) : RoundsTo (value x + value y) (x + y) := by
  have hsum :
      x + y = packed (UnpackedFloat.add Format.binary64 x.toModel.unpack y.toModel.unpack) := rfl
  rcases finite_cases hx with ⟨exponent, hsize⟩ | ⟨mantissa, exponent, hpos, hsize⟩ <;>
    rcases finite_cases hy with ⟨exponent', hsize'⟩ | ⟨mantissa', exponent', hpos', hsize'⟩
  · rw [value_of_size?_zero hsize, value_of_size?_zero hsize'] at h
    simp at h
  · have hsame : x + y = y := by
      obtain ⟨hsign, hpattern⟩ := packed_of_size? hsize' hpos' (sign y)
      rw [hsum, unpack_of_size?_zero hsize, unpack_of_size? hsize' hpos']
      exact ext_sign hsign hpattern
    rw [value_of_size?_zero hsize, zero_add, hsame]
    exact roundsTo_value hy (h.resolve_left (not_not.mpr (value_of_size?_zero hsize)))
  · have hsame : x + y = x := by
      obtain ⟨hsign, hpattern⟩ := packed_of_size? hsize hpos (sign x)
      rw [hsum, unpack_of_size? hsize hpos, unpack_of_size?_zero hsize']
      exact ext_sign hsign hpattern
    rw [value_of_size?_zero hsize', add_zero, hsame]
    exact roundsTo_value hx (h.resolve_right (not_not.mpr (value_of_size?_zero hsize')))
  · set smaller := min exponent exponent'
    set n := (sign x).apply (decreaseExponent mantissa exponent smaller).1
      + (sign y).apply (decreaseExponent mantissa' exponent' smaller).1 with hn
    have hvalue : value x + value y = (n : ℚ) * 2 ^ smaller := by
      rw [hn, Int.cast_add, add_mul, apply_decreaseExponent _ (min_le_left _ _),
        apply_decreaseExponent _ (min_le_right _ _), value_of_size? hsize, value_of_size? hsize']
    have hpower : (0 : ℚ) < 2 ^ smaller := by positivity
    have hneg : decide ((n : ℚ) * 2 ^ smaller < 0) = decide (n < 0) := by
      rw [decide_eq_decide, mul_neg_iff]
      simp [hpower, hpower.not_gt]
    rw [hvalue, hsum, unpack_of_size? hsize hpos, unpack_of_size? hsize' hpos', RoundsTo, hneg,
      abs_mul, abs_of_pos hpower]
    exact rounds_normalize n smaller

theorem apply_neg (s : Sign) (n : ℤ) : (-s).apply n = -s.apply n := by
  cases s with
  | negative => exact (neg_neg n).symm
  | positive => rfl

/-- Core subtracts by adding the opposite. -/
theorem unpacked_sub (u v : Float.Model.UnpackedFloat) :
    UnpackedFloat.sub Format.binary64 u v = UnpackedFloat.add Format.binary64 u v.neg := by
  cases u with
  | finite s mantissa exponent hpos =>
    cases v with
    | finite s' mantissa' exponent' hpos' =>
      rw [UnpackedFloat.neg, UnpackedFloat.add]
      dsimp only
      rw [apply_neg, ← sub_eq_add_neg]
      rfl
    | _ => rfl
  | _ => cases v <;> rfl

theorem sub_eq_add (hy : y.isFinite = true) : x - y = x + -y := by
  change packed (UnpackedFloat.sub Format.binary64 x.toModel.unpack y.toModel.unpack)
    = packed (UnpackedFloat.add Format.binary64 x.toModel.unpack (-y).toModel.unpack)
  rw [unpack_neg hy, unpacked_sub]

theorem roundsTo_sub (hx : x.isFinite = true) (hy : y.isFinite = true)
    (h : value x ≠ 0 ∨ value y ≠ 0) : RoundsTo (value x - value y) (x - y) := by
  have hvalue : value x - value y = value x + value (-y) := by
    rw [value_neg hy]
    ring
  rw [sub_eq_add hy, hvalue]
  exact roundsTo_add hx (isFinite_neg hy) (by rwa [value_neg hy, neg_ne_zero])

/-! ### Products and quotients -/

/-- The sign of a product, and also of a quotient. -/
theorem decide_mul_neg (h : value x * value y ≠ 0) :
    decide (value x * value y < 0) = isMinus (sign x * sign y) := by
  obtain ⟨hx, hy⟩ := mul_ne_zero_iff.mp h
  have hmul (s s' : Sign) : isMinus (s * s') = (isMinus s != isMinus s') := by
    cases s <;> cases s' <;> rfl
  rw [hmul, isMinus_sign, isMinus_sign, ← decide_value_neg hx, ← decide_value_neg hy]
  rcases lt_or_gt_of_ne hx with hxneg | hxpos <;> rcases lt_or_gt_of_ne hy with hyneg | hypos
  · rw [decide_eq_true hxneg, decide_eq_true hyneg,
      decide_eq_false (mul_pos_of_neg_of_neg hxneg hyneg).not_gt]
    rfl
  · rw [decide_eq_true hxneg, decide_eq_false hypos.not_gt,
      decide_eq_true (mul_neg_of_neg_of_pos hxneg hypos)]
    rfl
  · rw [decide_eq_false hxpos.not_gt, decide_eq_true hyneg,
      decide_eq_true (mul_neg_of_pos_of_neg hxpos hyneg)]
    rfl
  · rw [decide_eq_false hxpos.not_gt, decide_eq_false hypos.not_gt,
      decide_eq_false (mul_pos hxpos hypos).not_gt]
    rfl

/-- A mantissa with all its digits is not at an exponent too large for core's rounding. -/
theorem le_targetExponent (h : exponent ≤ leastExponent ∨ mantissaFloor ≤ mantissa) :
    exponent ≤ Format.binary64.targetExponent (totalExponent mantissa exponent) := by
  rw [targetExponent_eq, totalExponent]
  rcases h with hleast | hfloor
  · omega
  · have hlog : 52 ≤ mantissa.log2 := by
      rw [Nat.le_log2 (by unfold mantissaFloor at hfloor; omega)]
      exact hfloor
    omega

theorem roundsTo_mul (hx : x.isFinite = true) (hy : y.isFinite = true)
    (h : value x * value y ≠ 0) : RoundsTo (value x * value y) (x * y) := by
  obtain ⟨hxne, hyne⟩ := mul_ne_zero_iff.mp h
  have hproduct : x * y
      = packed (UnpackedFloat.mul Format.binary64 x.toModel.unpack y.toModel.unpack) := rfl
  rcases finite_cases hx with ⟨exponent, hsize⟩ | ⟨mantissa, exponent, hpos, hsize⟩
  · exact absurd (value_of_size?_zero hsize) hxne
  rcases finite_cases hy with ⟨exponent', hsize'⟩ | ⟨mantissa', exponent', hpos', hsize'⟩
  · exact absurd (value_of_size?_zero hsize') hyne
  have hvalue : (mantissa : ℚ) * 2 ^ exponent * (mantissa' * 2 ^ exponent')
      = (mantissa * mantissa' : ℕ) * 2 ^ (exponent + exponent') := by
    rw [zpow_add₀ two_ne_zero]
    push_cast
    ring
  rw [RoundsTo, decide_mul_neg h, hproduct, unpack_of_size? hsize hpos,
    unpack_of_size? hsize' hpos', abs_mul, abs_value, abs_value, size_pattern hsize,
    size_pattern hsize', hvalue]
  refine rounds_roundWithAccuracy (stands_exact _) (le_targetExponent ?_) _
  obtain ⟨row, rfl, -, hplace, -⟩ := size?_grid hsize
  obtain ⟨row', rfl, -, hplace', -⟩ := size?_grid hsize'
  rcases hplace.2 with rfl | hfloor
  · rcases hplace'.2 with rfl | hfloor'
    · left
      unfold leastExponent
      norm_num
    · exact .inr (hfloor'.trans (Nat.le_mul_of_pos_left _ hpos))
  · exact .inr (hfloor.trans (Nat.le_mul_of_pos_right _ hpos'))

/-- The exponent at which core divides two mantissas. -/
def divisionExponent (mantissa : ℕ) (exponent : ℤ) (mantissa' : ℕ) (exponent' : ℤ) : ℤ :=
  min (exponent - exponent')
    (max (totalExponent mantissa exponent - totalExponent mantissa' exponent' - 53) leastExponent)

/-- How far core shifts the mantissa that it divides. -/
def divisionShift (mantissa : ℕ) (exponent : ℤ) (mantissa' : ℕ) (exponent' : ℤ) : ℕ :=
  (exponent - exponent' - divisionExponent mantissa exponent mantissa' exponent').toNat

/-- Enough digits of a quotient are found for core's rounding. -/
theorem divisionExponent_le {mantissa' : ℕ} {exponent' : ℤ} (hpos : 0 < mantissa)
    (hpos' : 0 < mantissa') :
    divisionExponent mantissa exponent mantissa' exponent' ≤ leastExponent ∨
      mantissaFloor ≤ mantissa <<< divisionShift mantissa exponent mantissa' exponent'
        / mantissa' := by
  refine or_iff_not_imp_left.mpr fun hlarge => ?_
  have hlog : mantissa'.log2 + 53
      ≤ mantissa.log2 + divisionShift mantissa exponent mantissa' exponent' := by
    unfold divisionShift divisionExponent totalExponent at *
    omega
  rw [Nat.le_div_iff_mul_le hpos', Nat.shiftLeft_eq]
  calc mantissaFloor * mantissa'
      ≤ 2 ^ 52 * 2 ^ (mantissa'.log2 + 1) := Nat.mul_le_mul_left _ Nat.lt_log2_self.le
    _ = 2 ^ (mantissa'.log2 + 53) := by ring
    _ ≤ 2 ^ (mantissa.log2 + divisionShift mantissa exponent mantissa' exponent') :=
        Nat.pow_le_pow_right two_pos hlog
    _ = 2 ^ mantissa.log2 * 2 ^ divisionShift mantissa exponent mantissa' exponent' := pow_add _ _ _
    _ ≤ mantissa * 2 ^ divisionShift mantissa exponent mantissa' exponent' :=
        Nat.mul_le_mul_right _ (Nat.log2_self_le hpos.ne')

theorem shifted_div_eq (mantissa : ℕ) (exponent : ℤ) (mantissa' : ℕ) (exponent' : ℤ) :
    ((mantissa <<< divisionShift mantissa exponent mantissa' exponent' : ℕ) / mantissa' : ℚ)
        * 2 ^ divisionExponent mantissa exponent mantissa' exponent'
      = mantissa * 2 ^ exponent / (mantissa' * 2 ^ exponent') := by
  have hexp : (divisionShift mantissa exponent mantissa' exponent' : ℤ)
      = exponent - exponent' - divisionExponent mantissa exponent mantissa' exponent' := by
    unfold divisionShift divisionExponent
    omega
  have hpower : (2 : ℚ) ^ divisionShift mantissa exponent mantissa' exponent'
      * 2 ^ divisionExponent mantissa exponent mantissa' exponent'
        = 2 ^ exponent / 2 ^ exponent' := by
    rw [← zpow_natCast, ← zpow_add₀ two_ne_zero, hexp, ← zpow_sub₀ two_ne_zero]
    congr 1
    ring
  rw [Nat.shiftLeft_eq, mul_div_mul_comm, ← hpower]
  push_cast
  ring

theorem roundsTo_div (hx : x.isFinite = true) (hy : y.isFinite = true)
    (h : value x / value y ≠ 0) : RoundsTo (value x / value y) (x / y) := by
  obtain ⟨hxne, hyne⟩ := div_ne_zero_iff.mp h
  have hquotient : x / y
      = packed (UnpackedFloat.div Format.binary64 x.toModel.unpack y.toModel.unpack) := rfl
  rcases finite_cases hx with ⟨exponent, hsize⟩ | ⟨mantissa, exponent, hpos, hsize⟩
  · exact absurd (value_of_size?_zero hsize) hxne
  rcases finite_cases hy with ⟨exponent', hsize'⟩ | ⟨mantissa', exponent', hpos', hsize'⟩
  · exact absurd (value_of_size?_zero hsize') hyne
  have hneg : decide (value x / value y < 0) = isMinus (sign x / sign y) := by
    have hdiv (s s' : Sign) : s / s' = s * s' := by cases s <;> cases s' <;> rfl
    rw [hdiv, ← decide_mul_neg (mul_ne_zero hxne hyne), decide_eq_decide, div_neg_iff, mul_neg_iff]
  rw [RoundsTo, hneg, hquotient, unpack_of_size? hsize hpos, unpack_of_size? hsize' hpos', abs_div,
    abs_value, abs_value, size_pattern hsize, size_pattern hsize', ← shifted_div_eq]
  exact rounds_roundWithAccuracy (stands_fraction _ hpos')
    (le_targetExponent (divisionExponent_le hpos hpos')) _

/-! ### Counts -/

/-- Counts of up to 53 binary digits are sizes of doubles. -/
theorem exists_size_eq {n : ℕ} (h : n < 2 * mantissaFloor) :
    ∃ bits < infinityBits, size bits = n := by
  rcases Nat.eq_zero_or_pos n with rfl | hpos
  · exact ⟨0, by decide, by rw [size_zero, Nat.cast_zero]⟩
  have hlog : n.log2 < 53 := (Nat.log2_lt hpos.ne').mpr h
  obtain ⟨shift, hshift⟩ := Nat.exists_eq_add_of_le (Nat.le_of_lt_succ hlog)
  have hplace : IsPlace (1074 - shift) (n * 2 ^ shift) ∧ n * 2 ^ shift < 2 * mantissaFloor := by
    have hlow : mantissaFloor ≤ n * 2 ^ shift := by
      rw [mantissaFloor_eq, hshift, pow_add]
      exact Nat.mul_le_mul_right _ (Nat.log2_self_le hpos.ne')
    have hhigh : n * 2 ^ shift < 2 * mantissaFloor := by
      have htop : 2 * mantissaFloor = 2 ^ (n.log2 + 1) * 2 ^ shift := by
        rw [mantissaFloor_eq, hshift]
        ring
      rw [htop]
      exact Nat.mul_lt_mul_of_pos_right Nat.lt_log2_self (by positivity)
    exact ⟨⟨hhigh.le, .inr hlow⟩, hhigh⟩
  refine ⟨(1074 - shift) * mantissaFloor + n * 2 ^ shift, ?_, ?_⟩
  · have hlt := hplace.2
    unfold infinityBits mantissaFloor at *
    omega
  · have hexp : ((1074 - shift : ℕ) : ℤ) + leastExponent = -shift := by
      unfold leastExponent
      omega
    rw [size_grid hplace.1, gap, hexp]
    push_cast
    rw [zpow_neg, zpow_natCast, mul_assoc, mul_inv_cancel₀ (by positivity), mul_one]

/-- The double of a 64-bit count is what the count is rounded to. -/
theorem roundsTo_toFloat (n : UInt64) : RoundsTo n.toNat n.toFloat := by
  have hcount : n.toFloat = packed (UnpackedFloat.normalize Format.binary64 n.toNat 0 .positive) :=
    rfl
  have hrounds := rounds_normalize n.toNat 0
  have hneg : decide ((n.toNat : ℚ) < 0) = decide ((n.toNat : ℤ) < 0) := by
    rw [decide_eq_decide]
    exact_mod_cast Iff.rfl
  rw [← hcount] at hrounds
  rw [RoundsTo, hneg]
  simpa using hrounds

theorem value_toFloat {n : UInt64} (h : n.toNat < 2 * mantissaFloor) :
    n.toFloat.isFinite = true ∧ value n.toFloat = n.toNat := by
  obtain ⟨bits, hlt, hsize⟩ := exists_size_eq h
  refine (roundsTo_toFloat n).value_eq ?_ hlt
  rw [hsize, Nat.abs_cast]

theorem value_one : (1.0 : Float).isFinite = true ∧ value 1.0 = 1 := by
  have hsize : size? (1.0 : Float) = some (mantissaFloor, -52) := by decide
  have hsign : isNegative (1.0 : Float) = false := by decide
  refine ⟨(isFinite_iff _).mpr (pattern_lt_of_size? hsize), ?_⟩
  rw [value_of_not_isNegative hsign, size_pattern hsize]
  norm_num [mantissaFloor]

theorem value_ofNat {n : ℕ} (hpos : 0 < n) (h : n < 2 * mantissaFloor) :
    (Float.ofNat n).isFinite = true ∧ value (Float.ofNat n) = n := by
  have hproduct : Float.ofNat n = n.toUInt64.toFloat * Float.ofBits 0x3ff0000000000000 := by
    have hfast : n < 2 ^ 53 ∧ 0 ≤ 22 := ⟨h, Nat.zero_le _⟩
    change Float.ofScientific n false 0 = _
    rw [Float.ofScientific, dif_pos hfast]
    rfl
  have hbits : Float.ofBits 0x3ff0000000000000 = 1.0 := by decide
  have hword : n.toUInt64.toNat = n := UInt64.toNat_ofNat_of_lt' (by
    unfold mantissaFloor at h
    change n < 2 ^ 64
    omega)
  obtain ⟨hfinite, hvalue⟩ := @value_toFloat n.toUInt64 (by rwa [hword])
  obtain ⟨bits, hlt, hsize⟩ := exists_size_eq h
  rw [hword] at hvalue
  have hrounds := roundsTo_mul hfinite value_one.1 (by
    rw [hvalue, value_one.2, mul_one]
    exact_mod_cast hpos.ne')
  rw [hvalue, value_one.2, mul_one, ← hbits, ← hproduct] at hrounds
  exact hrounds.value_eq (by rw [hsize, Nat.abs_cast]) hlt

end Soundstage.Binary64
