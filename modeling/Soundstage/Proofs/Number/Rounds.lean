import Mathlib
import Soundstage.Proofs.Number.Double
import Soundstage.Proofs.Number.Quotient

/-!
# Correct rounding

`Rounds` says what the double nearest to a number is: no finite double is nearer, the even one of
two that are equally near is taken, and numbers from the middle behind the last finite double on are
infinite. Each number has one such double, and `nearest` finds it.
-/

namespace Soundstage.Binary64

/-- The size of a finite double. -/
def magnitude? (x : Float) : Option ℚ := (size? x).map fun (mantissa, exponent) =>
  mantissa * 2 ^ exponent

/-- `x` is the double that a number with the given sign and size is rounded to. -/
structure Rounds (negative : Bool) (v : ℚ) (x : Float) : Prop where
  sign : isNegative x = negative
  defined : x.isNaN = false
  isFinite_iff : x.isFinite = true ↔ v < 2 ^ 1024 - 2 ^ 970
  nearest : ∀ u ∈ magnitude? x, ∀ y, ∀ w ∈ magnitude? y, |u - v| ≤ |w - v|
  even : ∀ mantissa exponent, size? x = some (mantissa, exponent) →
    ∀ y, ∀ w ∈ magnitude? y, w ≠ mantissa * 2 ^ exponent →
      |mantissa * 2 ^ exponent - v| = |w - v| → mantissa % 2 = 0

theorem mem_magnitude?_iff {x : Float} {w : ℚ} :
    w ∈ magnitude? x ↔ pattern x < infinityBits ∧ w = size (pattern x) := by
  constructor
  · intro h
    obtain ⟨⟨mantissa, exponent⟩, hsize, rfl⟩ := Option.map_eq_some_iff.mp h
    exact ⟨pattern_lt_of_size? hsize, (size_pattern hsize).symm⟩
  · rintro ⟨hlt, rfl⟩
    obtain ⟨mantissa, exponent, hsize⟩ := exists_size? hlt
    rw [size_pattern hsize]
    exact Option.map_eq_some_iff.mpr ⟨_, hsize, rfl⟩

/-- The sizes of finite doubles are the sizes of the patterns before the infinity. -/
theorem exists_magnitude? {bits : ℕ} (h : bits < infinityBits) :
    ∃ y, size bits ∈ magnitude? y := by
  obtain ⟨-, hpattern⟩ := ofBits_parts false h.le
  exact ⟨_, mem_magnitude?_iff.mpr ⟨by rwa [hpattern], by rw [hpattern]⟩⟩

theorem pattern_mod_two {x : Float} {mantissa : ℕ} {exponent : ℤ}
    (h : size? x = some (mantissa, exponent)) : pattern x % 2 = mantissa % 2 := by
  obtain ⟨row, -, hpattern, -⟩ := size?_grid h
  rw [hpattern, grid_mod_two]

/-- The middle behind the last finite double. -/
theorem middle_last : middle (infinityBits - 1) = 2 ^ 1024 - 2 ^ 970 := by
  have hlast : infinityBits - 1 = 2045 * mantissaFloor + (2 * mantissaFloor - 1) := rfl
  have hplace : IsPlace 2045 (2 * mantissaFloor - 1) := ⟨by decide, .inr (by decide)⟩
  have hgap : gap 2045 = 2 * 2 ^ 970 := by
    rw [← pow_succ', ← zpow_natCast]
    rfl
  have hpower : (2 : ℚ) ^ 1024 = 2 ^ 54 * 2 ^ 970 := by rw [← pow_add]
  rw [hlast, middle_grid hplace (by decide), hgap, hpower, mantissaFloor]
  generalize (2 : ℚ) ^ 970 = top
  push_cast
  ring

namespace IsNearest

variable {v : ℚ} {bits : ℕ}

theorem lt_infinityBits_iff (h : IsNearest v bits) :
    bits < infinityBits ↔ v < 2 ^ 1024 - 2 ^ 970 := by
  rw [← middle_last]
  constructor
  · intro hlt
    obtain hlast | hbefore : bits = infinityBits - 1 ∨ bits < infinityBits - 1 := by omega
    · refine lt_of_le_of_ne (hlast ▸ h.le) fun hmiddle => ?_
      have heven := h.even_of_eq (hlast ▸ hmiddle)
      rw [hlast] at heven
      exact absurd heven (by decide)
    · have hle := h.le_middle_of_lt hbefore
      have hsize := size_strictMono hbefore
      have hmiddle := size_lt_middle (infinityBits - 1)
      linarith
  · intro hlt
    by_contra hle
    have hpos : 0 < infinityBits := by decide
    have hmiddle := h.middle_le_of_lt (show infinityBits - 1 < bits by omega)
    have hsize : size (infinityBits - 1 + 1) ≤ size bits := size_strictMono.monotone (by omega)
    unfold middle at hlt
    linarith

end IsNearest

section Rounds

variable {negative : Bool} {v : ℚ} {x y : Float} {bits : ℕ}

/-- The double with the nearest pattern, or the infinity in place of all patterns behind it. -/
theorem rounds_of_isNearest (hsign : isNegative x = negative) (h : IsNearest v bits)
    (hpattern : pattern x = min infinityBits bits) : Rounds negative v x where
  sign := hsign
  defined := by
    rw [Bool.eq_false_iff, ne_eq, isNaN_iff, hpattern]
    exact (min_le_left _ _).not_gt
  isFinite_iff := by
    rw [isFinite_iff, hpattern, ← h.lt_infinityBits_iff]
    omega
  nearest u hu y w hw := by
    obtain ⟨hlt, rfl⟩ := mem_magnitude?_iff.mp hu
    obtain ⟨-, rfl⟩ := mem_magnitude?_iff.mp hw
    obtain rfl : pattern x = bits := by omega
    exact h.abs_sub_le _
  even mantissa exponent hsize y w hw hne heq := by
    obtain ⟨-, rfl⟩ := mem_magnitude?_iff.mp hw
    have hlt := pattern_lt_of_size? hsize
    obtain rfl : pattern x = bits := by omega
    rw [← size_pattern hsize] at hne heq
    rw [← pattern_mod_two hsize]
    exact h.even_of_abs_sub_eq (fun h => hne (by rw [h])) heq.symm

theorem Rounds.pattern_eq (hx : Rounds negative v x) (h : IsNearest v bits) :
    pattern x = min infinityBits bits := by
  have hdefined : ¬ infinityBits < pattern x := by
    rw [← isNaN_iff, hx.defined]
    exact Bool.false_ne_true
  have hfinite : pattern x < infinityBits ↔ bits < infinityBits := by
    rw [← Binary64.isFinite_iff, hx.isFinite_iff, h.lt_infinityBits_iff]
  by_cases hlt : bits < infinityBits
  · have hxlt := hfinite.mpr hlt
    obtain ⟨mantissa, exponent, hsize⟩ := exists_size? hxlt
    obtain ⟨y, hy⟩ := exists_magnitude? hlt
    have hxmem : size (pattern x) ∈ magnitude? x := mem_magnitude?_iff.mpr ⟨hxlt, rfl⟩
    rw [h.eq_of_abs_sub_le (hx.nearest _ hxmem y _ hy) fun hne heq => ?_]
    · omega
    · rw [pattern_mod_two hsize]
      refine hx.even mantissa exponent hsize y _ hy ?_ ?_
      · rw [← size_pattern hsize]
        exact fun h => hne (size_strictMono.injective h)
      · rw [← size_pattern hsize]
        exact heq.symm
  · have := mt hfinite.mp hlt
    omega

/-- A number that is not negative is rounded to one double only. -/
theorem Rounds.unique (hv : 0 ≤ v) (hx : Rounds negative v x) (hy : Rounds negative v y) :
    x = y := by
  obtain ⟨bits, hbits⟩ := exists_isNearest hv
  exact ext_pattern (hx.sign.trans hy.sign.symm)
    ((hx.pattern_eq hbits).trans (hy.pattern_eq hbits).symm)

theorem rounds_nearest (negative : Bool) (num : ℕ) {den : ℕ} (hden : den ≠ 0) :
    Rounds negative (num / den) (nearest negative num den) := by
  obtain ⟨bits, hnearest, hbits⟩ := nearestBits_spec num hden
  obtain ⟨hsign, hpattern⟩ := ofBits_parts negative (hbits.trans_le (min_le_left _ _))
  exact rounds_of_isNearest hsign hnearest (hpattern.trans hbits)

theorem rounds_infinity (hv : 2 ^ 1024 - 2 ^ 970 ≤ v) :
    Rounds negative v (infinity negative) := by
  obtain ⟨bits, hnearest⟩ := exists_isNearest
    (le_trans (sub_nonneg.mpr (pow_le_pow_right₀ one_le_two (by decide))) hv)
  obtain ⟨hsign, hpattern⟩ := ofBits_parts negative le_rfl
  refine rounds_of_isNearest hsign hnearest (hpattern.trans ?_)
  have := mt hnearest.lt_infinityBits_iff.mp hv.not_gt
  omega

end Rounds

end Soundstage.Binary64
