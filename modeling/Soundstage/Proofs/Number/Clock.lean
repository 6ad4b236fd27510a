import Soundstage.Proofs.Number.Arithmetic

/-!
# Clocks that may run over

A clock in doubles starts at zero and is moved on by finite lengths that are not negative. It never
gets negative or undefined and never goes back, but it can run over: from then on it stays infinite.
Where it has not, the time between two of its readings is finite.
-/

open Float.Model Float.Model.UnpackedFloat

namespace Soundstage.Binary64

variable {x y z : Float}

/-- A clock can show a number that is not negative, or infinity. -/
structure IsReading (x : Float) : Prop where
  sign : isNegative x = false
  defined : x.isNaN = false

/-- What a clock shows that has run over. -/
def posInfinity : Float := Float.ofBits 0x7ff0000000000000

theorem IsReading.value_nonneg (h : IsReading x) : 0 ≤ value x := by
  rw [value_of_not_isNegative h.sign]
  exact size_nonneg _

theorem IsReading.pattern_le (h : IsReading x) : pattern x ≤ infinityBits := by
  have hdefined : ¬ infinityBits < pattern x := by
    rw [← isNaN_iff, h.defined]
    exact Bool.false_ne_true
  exact not_lt.mp hdefined

theorem IsReading.pattern_eq (h : IsReading x) (hx : x.isFinite = false) :
    pattern x = infinityBits := by
  have hge : ¬ pattern x < infinityBits := by
    rw [← isFinite_iff, hx]
    exact Bool.false_ne_true
  exact h.pattern_le.antisymm (not_lt.mp hge)

/-- A clock that has run over shows infinity. -/
theorem IsReading.eq_posInfinity (h : IsReading x) (hx : x.isFinite = false) :
    x = posInfinity := by
  have hinfinity : isNegative posInfinity = false ∧ pattern posInfinity = infinityBits := by
    decide
  exact ext_pattern (h.sign.trans hinfinity.1.symm) ((h.pattern_eq hx).trans hinfinity.2.symm)

theorem eq_zero_of_value (hx : x.isFinite = true) (h : value x = 0) : x = 0.0 ∨ x = -0.0 := by
  have hpattern : pattern x = 0 := by
    rcases finite_cases hx with ⟨exponent, hsize⟩ | ⟨mantissa, exponent, hpos, hsize⟩
    · exact pattern_of_size?_zero hsize
    · have hne := size_pattern_pos hsize hpos
      rw [← abs_value, h, abs_zero] at hne
      exact absurd hne (lt_irrefl 0)
  cases hs : isNegative x with
  | false =>
      have hpositive : isNegative (0.0 : Float) = false ∧ pattern 0.0 = 0 := by decide
      exact .inl (ext_pattern (hs.trans hpositive.1.symm) (hpattern.trans hpositive.2.symm))
  | true =>
      have hnegative : isNegative (-0.0 : Float) = true ∧ pattern (-0.0) = 0 := by decide
      exact .inr (ext_pattern (hs.trans hnegative.1.symm) (hpattern.trans hnegative.2.symm))

theorem unpack_posInfinity : posInfinity.toModel.unpack = .infinity .positive := by
  have hpattern : pattern posInfinity = infinityBits := by decide
  have hsign : sign posInfinity = .positive := sign_eq_positive_iff.mpr (by decide)
  rw [unpack_of_pattern_eq hpattern, hsign]

/-- A clock that has run over stays so. -/
theorem posInfinity_add (hy : y.isFinite = true) : posInfinity + y = posInfinity := by
  have hpacked : packed (.infinity .positive) = posInfinity := by decide
  have hsum : posInfinity + y
      = packed (UnpackedFloat.add Format.binary64 posInfinity.toModel.unpack y.toModel.unpack) :=
    rfl
  rw [hsum, unpack_posInfinity]
  rcases finite_cases hy with ⟨exponent, hsize⟩ | ⟨mantissa, exponent, hpos, hsize⟩
  · rw [unpack_of_size?_zero hsize]
    exact hpacked
  · rw [unpack_of_size? hsize hpos]
    exact hpacked

/-- A clock can be moved on by what is finite and not negative. -/
theorem IsReading.add (hx : IsReading x) (hy : y.isFinite = true) (hnonneg : 0 ≤ value y) :
    IsReading (x + y) := by
  cases hfinite : x.isFinite with
  | false =>
      obtain rfl := hx.eq_posInfinity hfinite
      rw [posInfinity_add hy]
      exact hx
  | true =>
      by_cases hzero : value x = 0 ∧ value y = 0
      · -- The sum of two zeros is not negative, because the clock is not.
        have hsum : ∀ y ∈ [(0.0 : Float), -0.0],
            isNegative (0.0 + y) = false ∧ (0.0 + y).isNaN = false := by decide
        have hclock : x = 0.0 := by
          refine (eq_zero_of_value hfinite hzero.1).resolve_right fun heq => ?_
          have hsign := hx.sign
          rw [heq] at hsign
          exact absurd hsign (by decide)
        obtain ⟨hsign, hdefined⟩ := hsum y (by simpa using eq_zero_of_value hy hzero.2)
        rw [hclock]
        exact ⟨hsign, hdefined⟩
      · have hrounds := roundsTo_add hfinite hy (by tauto)
        have hge : ¬ value x + value y < 0 := not_lt.mpr (add_nonneg hx.value_nonneg hnonneg)
        exact ⟨hrounds.sign.trans (decide_eq_false hge), hrounds.defined⟩

/-- Finite doubles lie before the middle between the last one and infinity. -/
theorem abs_value_lt (hx : x.isFinite = true) : |value x| < 2 ^ 1024 - 2 ^ 970 := by
  by_cases hzero : value x = 0
  · rw [hzero, abs_zero]
    exact sub_pos.mpr (pow_lt_pow_right₀ one_lt_two (by decide))
  · exact (roundsTo_value hx hzero).isFinite_iff.mp hx

/-- The time between two readings of a clock that has not run over is finite. -/
theorem IsReading.isFinite_sub (hx : IsReading x) (hy : IsReading y) (hxf : x.isFinite = true)
    (hyf : y.isFinite = true) : (x - y).isFinite = true := by
  by_cases hzero : value x = 0 ∧ value y = 0
  · have hsub : ∀ x ∈ [(0.0 : Float), -0.0], ∀ y ∈ [(0.0 : Float), -0.0],
        (x - y).isFinite = true := by decide
    exact hsub x (by simpa using eq_zero_of_value hxf hzero.1) y
      (by simpa using eq_zero_of_value hyf hzero.2)
  · refine (roundsTo_sub hxf hyf (by tauto)).isFinite_iff.mpr ?_
    have hxlt := abs_value_lt hxf
    have hylt := abs_value_lt hyf
    rw [abs_of_nonneg hx.value_nonneg] at hxlt
    rw [abs_of_nonneg hy.value_nonneg] at hylt
    rw [abs_sub_lt_iff]
    exact ⟨(sub_le_self _ hy.value_nonneg).trans_lt hxlt,
      (sub_le_self _ hx.value_nonneg).trans_lt hylt⟩

/-- No copies of a length take no time. -/
theorem zero_mul_value (hy : y.isFinite = true) :
    (0.0 * y).isFinite = true ∧ value (0.0 * y) = 0 := by
  have hproduct : 0.0 * y
      = packed (UnpackedFloat.mul Format.binary64 (0.0 : Float).toModel.unpack y.toModel.unpack) :=
    rfl
  obtain ⟨exponent, hzero⟩ : ∃ exponent, size? (0.0 : Float) = some (0, exponent) :=
    ⟨leastExponent, by decide⟩
  have hpattern : pattern (0.0 * y) = 0 := by
    rw [hproduct, unpack_of_size?_zero hzero]
    rcases finite_cases hy with ⟨exponent', hsize⟩ | ⟨mantissa, exponent', hpos, hsize⟩
    · rw [unpack_of_size?_zero hsize]
      exact (packed_zero _).2
    · rw [unpack_of_size? hsize hpos]
      exact (packed_zero _).2
  refine ⟨(isFinite_iff _).mpr (by rw [hpattern]; decide), ?_⟩
  rw [value, hpattern, size_zero, mul_zero]

/-- Taking away what is zero changes nothing. -/
theorem sub_value_of_zero (hx : x.isFinite = true) (hne : value x ≠ 0) (hy : y.isFinite = true)
    (hzero : value y = 0) : (x - y).isFinite = true ∧ value (x - y) = value x := by
  have hrounds := roundsTo_sub hx hy (.inl hne)
  rw [hzero, sub_zero] at hrounds
  exact hrounds.value_eq (abs_value x) ((isFinite_iff x).mp hx)

theorem IsReading.unpack_eq (h : IsReading x) (hx : x.isFinite = false) :
    x.toModel.unpack = .infinity .positive := by
  rw [unpack_of_pattern_eq (h.pattern_eq hx), sign_eq_positive_iff.mpr h.sign]

/-- A clock that has run over is ahead of every one that has not. -/
theorem compare_unpack_infinity (hx : x.isFinite = true) :
    x.toModel.unpack.compare (.infinity .positive) = some .lt ∧
      (UnpackedFloat.infinity .positive).compare x.toModel.unpack = some .gt := by
  rcases finite_cases hx with ⟨exponent, hsize⟩ | ⟨mantissa, exponent, hpos, hsize⟩
  · rw [unpack_of_size?_zero hsize]
    cases Binary64.sign x <;> exact ⟨rfl, rfl⟩
  · rw [unpack_of_size? hsize hpos]
    cases Binary64.sign x <;> exact ⟨rfl, rfl⟩

/-- Readings are compared as their patterns are, whether the clock has run over or not. -/
theorem IsReading.le_iff_pattern_le (hx : IsReading x) (hy : IsReading y) :
    x ≤ y ↔ pattern x ≤ pattern y := by
  have hcompare : x ≤ y ↔
      (x.toModel.unpack.compare y.toModel.unpack).any (·.isLE) = true := by
    change decide ((x.toModel.unpack.compare y.toModel.unpack).any (·.isLE) = true) = true ↔ _
    exact decide_eq_true_iff
  cases hxf : x.isFinite with
  | false =>
      rw [hcompare, hx.unpack_eq hxf, hx.pattern_eq hxf]
      cases hyf : y.isFinite with
      | false =>
          rw [hy.unpack_eq hyf, hy.pattern_eq hyf]
          exact iff_of_true rfl le_rfl
      | true =>
          rw [(compare_unpack_infinity hyf).2]
          exact iff_of_false Bool.false_ne_true ((isFinite_iff y).mp hyf).not_ge
  | true =>
      cases hyf : y.isFinite with
      | false =>
          rw [hcompare, hy.unpack_eq hyf, hy.pattern_eq hyf, (compare_unpack_infinity hxf).1]
          exact iff_of_true rfl hx.pattern_le
      | true =>
          rw [le_iff_value_le hxf hyf, value_of_not_isNegative hx.sign,
            value_of_not_isNegative hy.sign]
          exact size_strictMono.le_iff_le

/-- A clock that has not run over has not done so before. -/
theorem IsReading.isFinite_of_le (hx : IsReading x) (hy : IsReading y) (hxy : x ≤ y)
    (hfinite : y.isFinite = true) : x.isFinite = true := by
  rw [hx.le_iff_pattern_le hy] at hxy
  rw [isFinite_iff] at hfinite ⊢
  exact hxy.trans_lt hfinite

theorem IsReading.le_refl (hx : IsReading x) : x ≤ x := (hx.le_iff_pattern_le hx).mpr le_rfl

theorem IsReading.le_trans (hx : IsReading x) (hy : IsReading y) (hz : IsReading z)
    (hxy : x ≤ y) (hyz : y ≤ z) : x ≤ z := by
  rw [hx.le_iff_pattern_le hy] at hxy
  rw [hy.le_iff_pattern_le hz] at hyz
  exact (hx.le_iff_pattern_le hz).mpr (hxy.trans hyz)

/-- Rounding never turns a clock back that is moved on by what is not negative. -/
theorem IsReading.le_add (hx : IsReading x) (hy : y.isFinite = true) (hnonneg : 0 ≤ value y) :
    x ≤ x + y := by
  rw [hx.le_iff_pattern_le (hx.add hy hnonneg)]
  cases hfinite : x.isFinite with
  | false =>
      obtain rfl := hx.eq_posInfinity hfinite
      rw [posInfinity_add hy]
  | true =>
      by_cases hzero : value x = 0 ∧ value y = 0
      · have hpattern : pattern x = 0 := by
          have hsize := abs_value x
          rw [hzero.1, abs_zero, ← size_zero] at hsize
          exact (size_strictMono.injective hsize).symm
        rw [hpattern]
        exact Nat.zero_le _
      · have hsum : 0 ≤ value x + value y := add_nonneg hx.value_nonneg hnonneg
        have hrounds := roundsTo_add hfinite hy (by tauto)
        obtain ⟨bits, hbits⟩ := exists_isNearest hsum
        have hle : size (pattern x) ≤ value x + value y := by
          rw [← value_of_not_isNegative hx.sign]
          exact le_add_of_nonneg_right hnonneg
        have hbelow : pattern x ≤ bits := (IsNearest.of_size (pattern x)).mono hbits hle
        rw [RoundsTo, abs_of_nonneg hsum] at hrounds
        rw [hrounds.pattern_eq hbits]
        exact le_min hx.pattern_le hbelow

end Soundstage.Binary64
