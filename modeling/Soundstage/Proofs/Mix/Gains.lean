import Mathlib
import Soundstage.Mix.Graph
import Soundstage.Proofs.Number.Arithmetic
import Soundstage.Proofs.Number.Fixed

/-!
# Gains

A pan that is no number, infinite or outside of the stereo field still gives gains between nothing
and the whole channel, and so do the numbers that these gains are written as.
-/

namespace Soundstage

open Binary64

theorem value_scalar_zero :
    (Scalar.zero : Float).isFinite = true ∧ value (Scalar.zero : Float) = 0 := by
  have hzero : (Scalar.zero : Float) = (0 : UInt64).toFloat := rfl
  rw [hzero]
  exact_mod_cast @value_toFloat 0 (by decide)

theorem value_scalar_one :
    (Scalar.one : Float).isFinite = true ∧ value (Scalar.one : Float) = 1 := by
  have hone : (Scalar.one : Float) = (1 : UInt64).toFloat := rfl
  rw [hone]
  exact_mod_cast @value_toFloat 1 (by decide)

/-- A number of a graph that is not negative is written as the nearest count of its last place. -/
theorem exists_number_eq {x : Float} (hx : x.isFinite = true) (h : isNegative x = false) :
    ∃ units, Graph.number x = Style.placesText Graph.places units ∧
      |value x * 10 ^ Graph.places - units| ≤ 1 / 2 := by
  obtain ⟨units, htext, hnear⟩ := Style.fixed_of_isFinite Graph.places hx
  rw [Style.signText, h, if_neg Bool.false_ne_true, String.empty_append] at htext
  rw [← value_of_not_isNegative h] at hnear
  exact ⟨units, htext, hnear⟩

/-- A gain lies between nothing and the whole, and so does the number that it is written as. -/
structure IsGain (g : Float) : Prop where
  zero_le : Scalar.zero ≤ g
  le_one : g ≤ Scalar.one
  written : ∃ units ≤ 10 ^ Graph.places, Graph.number g = Style.placesText Graph.places units

theorem clampPan_spec (pan : Float) :
    (clampPan pan).isFinite = true ∧ -1 ≤ value (clampPan pan) ∧ value (clampPan pan) ≤ 1 := by
  obtain ⟨hfinite, hone⟩ := value_scalar_one
  have hneg := value_neg hfinite
  rw [hone] at hneg
  unfold clampPan
  split_ifs with hpan hbelow habove
  · exact ⟨isFinite_neg hfinite, by rw [hneg], by rw [hneg]; norm_num⟩
  · exact ⟨hfinite, by rw [hone]; norm_num, hone.le⟩
  · rw [lt_iff_value_lt hpan (isFinite_neg hfinite), hneg] at hbelow
    rw [lt_iff_value_lt hfinite hpan, hone] at habove
    exact ⟨hpan, not_lt.mp hbelow, not_lt.mp habove⟩
  · obtain ⟨hfinite, hzero⟩ := value_scalar_zero
    exact ⟨hfinite, by rw [hzero]; norm_num, by rw [hzero]; norm_num⟩

theorem notNegative_spec {x : Float} (hx : x.isFinite = true) (h : value x ≤ 1) :
    (notNegative x).isFinite = true ∧ 0 ≤ value (notNegative x) ∧ value (notNegative x) ≤ 1 := by
  obtain ⟨hfinite, hzero⟩ := value_scalar_zero
  unfold notNegative
  split_ifs with hpos
  · rw [lt_iff_value_lt hfinite hx, hzero] at hpos
    exact ⟨hx, hpos.le, h⟩
  · exact ⟨hfinite, hzero.ge, by rw [hzero]; norm_num⟩

/-- What is left of the whole channel is a gain. -/
theorem isGain_one_sub {y : Float} (hy : y.isFinite = true) (h : 0 ≤ value y ∧ value y ≤ 1) :
    IsGain (Scalar.one - y) := by
  obtain ⟨honefinite, hone⟩ := value_scalar_one
  obtain ⟨hzerofinite, hzero⟩ := value_scalar_zero
  have hsize : size (pattern (Scalar.one : Float)) = 1 := by rw [← abs_value, hone, abs_one]
  have hrounds := roundsTo_sub honefinite hy (.inl (by rw [hone]; norm_num))
  rw [hone] at hrounds
  obtain ⟨hfinite, hsign, hle⟩ := hrounds.value_le (by linarith) (by rw [hsize]; linarith)
    ((isFinite_iff _).mp honefinite)
  have hvalue := value_of_not_isNegative hsign
  rw [hsize] at hle
  refine ⟨?_, ?_, ?_⟩
  · rw [le_iff_value_le hzerofinite hfinite, hzero, hvalue]
    exact size_nonneg _
  · rw [le_iff_value_le hfinite honefinite, hone]
    exact hle
  · obtain ⟨units, htext, hnear⟩ := exists_number_eq hfinite hsign
    have hunits : (units : ℚ) < (10 ^ Graph.places + 1 : ℕ) := by
      have hscale : value (Scalar.one - y) * 10 ^ Graph.places ≤ 10 ^ Graph.places :=
        mul_le_of_le_one_left (by positivity) hle
      push_cast
      linarith [(abs_le.mp hnear).1]
    exact ⟨units, Nat.le_of_lt_succ (by exact_mod_cast hunits), htext⟩

theorem isGain_gains (pan : Float) : IsGain (gains pan).left ∧ IsGain (gains pan).right := by
  obtain ⟨hfinite, hge, hle⟩ := clampPan_spec pan
  have hneg := value_neg hfinite
  obtain ⟨hleft, hleftmem⟩ := notNegative_spec hfinite hle
  obtain ⟨hright, hrightmem⟩ := notNegative_spec (isFinite_neg hfinite) (by linarith)
  exact ⟨isGain_one_sub hleft hleftmem, isGain_one_sub hright hrightmem⟩

end Soundstage
