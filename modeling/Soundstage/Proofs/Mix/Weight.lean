import Mathlib
import Soundstage.Proofs.Mix.Call

/-!
# The written weight

Each summed stream is multiplied with one over the count of streams, and the graph names that weight
with six places. What is written is the nearest count of millionths, so it may be greater than the
weight itself: `written_weight_near` bounds the difference, and up to 1461 clips the sum of
full-scale streams stays within full scale.
-/

namespace Soundstage

open Binary64 Soundstage.Graph

/-- The signed number that a numeral stands for. -/
def Numeral.value (n : Numeral) : ℚ := if n.negative then -n.size else n.size

/-- The number behind the sum at the end of a written graph. -/
def Graph.writtenWeight? (text : String) : Option ℚ := do
  let part ← (parts text).getLast?.join
  let sum ← Sum.read? part.filters
  let numeral ← Numeral.ofPlain? sum.weight.toList
  some numeral.value

/-- The count of millionths that is nearest to the share of one of `n` clips and the bed. -/
structure IsShare (units n : ℕ) : Prop where
  ge : 2 * 10 ^ 6 ≤ (2 * units + 1) * (n + 1)
  le : 2 * units * (n + 1) ≤ 2 * 10 ^ 6 + (n + 1)

namespace IsShare

variable {units n : ℕ}

theorem abs_sub_le (h : IsShare units n) :
    |(units / 10 ^ 6 - 1 / (n + 1) : ℚ)| ≤ 1 / (2 * 10 ^ 6) := by
  have hstreams : (0 : ℚ) < n + 1 := by positivity
  have hge : (2 * 10 ^ 6 : ℚ) ≤ (2 * units + 1) * (n + 1) := by exact_mod_cast h.ge
  have hle : (2 * units * (n + 1) : ℚ) ≤ 2 * 10 ^ 6 + (n + 1) := by exact_mod_cast h.le
  have hsplit : (units / 10 ^ 6 - 1 / (n + 1) : ℚ)
      = (2 * units * (n + 1) - 2 * 10 ^ 6) / (2 * 10 ^ 6 * (n + 1)) := by field_simp
  rw [hsplit, abs_div, abs_of_pos (by positivity : (0 : ℚ) < 2 * 10 ^ 6 * _),
    div_le_div_iff₀ (by positivity) (by positivity), one_mul, mul_comm]
  refine mul_le_mul_of_nonneg_left (abs_le.mpr ⟨?_, ?_⟩) (by positivity) <;> linarith

theorem pos (h : IsShare units n) (hn : n ≤ 1461) : 0 < units := by
  by_contra hzero
  obtain rfl : units = 0 := by omega
  have hge := h.ge
  omega

/-- The greatest counts of millionths that can be shares of up to 1461 clips do not clip. -/
theorem mul_greatest_le : ∀ n < 1462, n * ((2 * 10 ^ 6 + (n + 1)) / (2 * (n + 1))) ≤ 10 ^ 6 := by
  decide +kernel

theorem mul_le (h : IsShare units n) (hn : n ≤ 1461) : n * units ≤ 10 ^ 6 := by
  have hgreatest : units ≤ (2 * 10 ^ 6 + (n + 1)) / (2 * (n + 1)) := by
    rw [Nat.le_div_iff_mul_le (by omega)]
    linarith [h.le]
  exact (Nat.mul_le_mul_left n hgreatest).trans (mul_greatest_le n (by omega))

theorem eq_zero (h : IsShare units n) (hn : 2 * 10 ^ 6 ≤ n) : units = 0 := by
  by_contra hne
  have hmul : 1 * (n + 1) ≤ units * (n + 1) := Nat.mul_le_mul_right _ (Nat.pos_of_ne_zero hne)
  have hle := h.le
  rw [mul_assoc] at hle
  omega

end IsShare

namespace MixPlan

variable {plan : MixPlan}

theorem writtenWeight?_eq (h : plan.inputs ≠ []) (sampleRate : ℕ) {units : ℕ}
    (htext : number plan.weight = Style.placesText places units) :
    writtenWeight? (plan.filterGraph sampleRate) = some (units / 10 ^ 6 : ℚ) := by
  have hparts : (parts (plan.filterGraph sampleRate)).getLast?
      = some (some (sumPart (plan.chains sampleRate) (number plan.weight))) := by
    rw [filterGraph_of_ne_nil sampleRate h,
      parts_text_mix (plan.isNumeric_of_mem_chains sampleRate)]
    simp
  have hnumeral : Numeral.ofPlain? (Style.placesText places units).toList
      = some ⟨false, units, -(places : ℤ)⟩ :=
    Numeral.ofPlain?_eq_some_iff.mpr
      ⟨[], _, (List.nil_append _).symm, .inl rfl, Style.writesUnsigned_placesText _ _⟩
  have hsize : Numeral.value ⟨false, units, -(places : ℤ)⟩ = units / 10 ^ 6 := by
    rw [Numeral.value, if_neg Bool.false_ne_true, Numeral.size, Decimal.value, Numeral.decimal,
      zpow_neg, zpow_natCast, places, div_eq_mul_inv]
  rw [writtenWeight?, hparts, Option.join_some, Option.bind_eq_bind, Option.bind_some]
  change ((Sum.read? (sumFilters (plan.chains sampleRate).length (number plan.weight))).bind
    fun sum => _) = _
  rw [Sum.read?_sumFilters, Option.bind_some, htext, hnumeral]
  exact congrArg some hsize

/-- The weight is the double nearest to one over the count of streams, as long as doubles can count
them. -/
theorem weight_spec (h : plan.inputs ≠ []) (hlt : plan.inputs.length + 1 < 2 ^ 53) :
    plan.weight.isFinite = true ∧ isNegative plan.weight = false ∧
      |value plan.weight - 1 / (plan.inputs.length + 1)|
        ≤ 1 / (plan.inputs.length + 1) / 2 ^ 53 := by
  have hpos : 0 < plan.inputs.length := List.length_pos_of_ne_nil h
  obtain ⟨hone, hvalue⟩ := value_one
  obtain ⟨hcount, hcountvalue⟩ := value_ofNat hpos (by unfold mantissaFloor; omega)
  have hsum := roundsTo_add hcount hone (.inr (by rw [hvalue]; norm_num))
  obtain ⟨bits, hbits, hsize⟩ := @exists_size_eq (plan.inputs.length + 1) (by
    unfold mantissaFloor
    omega)
  rw [hcountvalue, hvalue] at hsum
  push_cast at hsize
  obtain ⟨hfinite, hstreams⟩ := hsum.value_eq (by rw [hsize, abs_of_pos (by positivity)]) hbits
  have hweight := roundsTo_div hone hfinite (by
    rw [hvalue, hstreams]
    positivity)
  rw [hvalue, hstreams] at hweight
  have hle : (1 : ℚ) / (plan.inputs.length + 1) ≤ size (pattern 1.0) := by
    rw [← abs_value, hvalue, abs_one, div_le_one (by positivity)]
    linarith [(Nat.cast_nonneg plan.inputs.length : (0 : ℚ) ≤ plan.inputs.length)]
  have hge : (2 : ℚ) ^ (-1022 : ℤ) ≤ 1 / (plan.inputs.length + 1) := by
    have hcast : ((plan.inputs.length : ℚ) + 1) ≤ 2 ^ (53 : ℤ) := by exact_mod_cast hlt.le
    calc (2 : ℚ) ^ (-1022 : ℤ) ≤ 2 ^ (-53 : ℤ) := zpow_le_zpow_right₀ one_le_two (by norm_num)
      _ = 1 / 2 ^ (53 : ℤ) := by rw [zpow_neg, one_div]
      _ ≤ 1 / (plan.inputs.length + 1) := one_div_le_one_div_of_le (by positivity) hcast
  obtain ⟨hweightfinite, hsign, -⟩ :=
    hweight.value_le (by positivity) hle ((isFinite_iff _).mp hone)
  exact ⟨hweightfinite, hsign, hweight.abs_value_sub_le hweightfinite hge⟩

/-- The written weights of all streams add up to one but for half a millionth each, and what the
division has rounded adds less than half a millionth to the whole. -/
theorem abs_sub_lt_of_written {streams weight : ℚ} (hstreams : 0 < streams) {units : ℕ}
    (hnear : |weight - 1 / streams| ≤ 1 / streams / 2 ^ 53)
    (hunits : |weight * 10 ^ places - units| ≤ 1 / 2) :
    |2 * 10 ^ 6 - 2 * units * streams| < streams + 1 := by
  have hrounding : |streams * (weight - 1 / streams)| ≤ 1 / 2 ^ 53 := by
    rw [abs_mul, abs_of_pos hstreams]
    calc streams * |weight - 1 / streams|
        ≤ streams * (1 / streams / 2 ^ 53) := mul_le_mul_of_nonneg_left hnear hstreams.le
      _ = 1 / 2 ^ 53 := by field_simp
  have hwriting : |2 * streams * (weight * 10 ^ places - units)| ≤ streams := by
    rw [abs_mul, abs_of_pos (by positivity)]
    calc 2 * streams * |weight * 10 ^ places - units|
        ≤ 2 * streams * (1 / 2) := mul_le_mul_of_nonneg_left hunits (by positivity)
      _ = streams := by ring
  have hsplit : 2 * 10 ^ 6 - 2 * units * streams
      = 2 * streams * (weight * 10 ^ places - units)
        - 2 * 10 ^ 6 * (streams * (weight - 1 / streams)) := by
    rw [places]
    field_simp
    ring
  rw [abs_le] at hrounding hwriting
  rw [hsplit, abs_lt]
  constructor <;> norm_num at hrounding ⊢ <;> linarith

/-- The written count of millionths is the share of one of all streams. -/
theorem exists_isShare (h : plan.inputs ≠ []) (hlt : plan.inputs.length + 1 < 2 ^ 53) :
    ∃ units : ℕ, number plan.weight = Style.placesText places units ∧
      IsShare units plan.inputs.length := by
  obtain ⟨hfinite, hsign, hnear⟩ := weight_spec h hlt
  obtain ⟨units, htext, hunits⟩ := exists_number_eq hfinite hsign
  have hdiff := abs_lt.mp (abs_sub_lt_of_written (by positivity) hnear hunits)
  refine ⟨units, htext, ?_, ?_⟩
  -- Both sides are integers, so that a difference of less than one is none.
  · have hcast : 2 * 10 ^ 6 < (2 * units + 1) * (plan.inputs.length + 1) + 1 := by
      have h := hdiff.2
      exact_mod_cast (by linarith : (2 * 10 ^ 6 : ℚ)
        < (2 * units + 1) * (plan.inputs.length + 1) + 1)
    exact Nat.le_of_lt_succ hcast
  · have hcast : 2 * units * (plan.inputs.length + 1)
        < 2 * 10 ^ 6 + (plan.inputs.length + 1) + 1 := by
      have h := hdiff.1
      exact_mod_cast (by linarith : (2 * units * (plan.inputs.length + 1) : ℚ)
        < 2 * 10 ^ 6 + (plan.inputs.length + 1) + 1)
    exact Nat.le_of_lt_succ hcast

/-- The written weight is off by half a millionth at most. Up to 1461 clips it keeps the sum of
full-scale streams within full scale, and from two million clips on it silences all of them. -/
theorem written_weight_near (plan : MixPlan) (sampleRate : ℕ) (h : plan.inputs ≠ [])
    (hlt : plan.inputs.length + 1 < 2 ^ 53) :
    ∃ w, writtenWeight? (plan.filterGraph sampleRate) = some w ∧
      |w - 1 / (plan.inputs.length + 1)| ≤ 1 / (2 * 10 ^ 6) ∧
      (plan.inputs.length ≤ 1461 → 0 < w ∧ plan.inputs.length * w ≤ 1) ∧
      (2 * 10 ^ 6 ≤ plan.inputs.length → w = 0) := by
  obtain ⟨units, htext, hshare⟩ := exists_isShare h hlt
  refine ⟨_, writtenWeight?_eq h sampleRate htext, hshare.abs_sub_le, fun hfew => ?_,
    fun hmany => ?_⟩
  · have hpos := hshare.pos hfew
    have hmul := hshare.mul_le hfew
    refine ⟨by positivity, ?_⟩
    rw [← mul_div_assoc, div_le_one (by positivity)]
    exact_mod_cast hmul
  · rw [hshare.eq_zero hmany, Nat.cast_zero, zero_div]

/-- A plan with a number of equal clips. -/
def repeated (count : ℕ) : MixPlan where
  total := count.toFloat
  inputs := List.replicate count ⟨"rain.opus", 0, 1, 0⟩

theorem written_weight_near_two :
    (repeated 2).inputs ≠ [] ∧ (repeated 2).inputs.length + 1 < 2 ^ 53 ∧
    ∃ w, writtenWeight? ((repeated 2).filterGraph 48000) = some w ∧
      |w - 1 / ((repeated 2).inputs.length + 1)| ≤ 1 / (2 * 10 ^ 6) ∧
      ((repeated 2).inputs.length ≤ 1461 → 0 < w ∧ (repeated 2).inputs.length * w ≤ 1) ∧
      (2 * 10 ^ 6 ≤ (repeated 2).inputs.length → w = 0) :=
  ⟨List.cons_ne_nil _ _, by decide,
    written_weight_near (repeated 2) 48000 (List.cons_ne_nil _ _) (by decide)⟩

/-- With 1462 clips the weight is rounded up so far that the sum of full-scale streams is more than
full scale. -/
theorem written_weight_may_clip : ∃ w,
    writtenWeight? ((repeated 1462).filterGraph 48000) = some w ∧
      1 < (repeated 1462).inputs.length * w := by
  have htext : number (repeated 1462).weight = Style.placesText places 684 := by
    have hcount : (repeated 1462).inputs.length = 1462 := List.length_replicate
    rw [weight, hcount]
    decide +kernel
  refine ⟨_, writtenWeight?_eq (List.cons_ne_nil _ _) 48000 htext, ?_⟩
  rw [repeated, List.length_replicate]
  norm_num

end MixPlan

end Soundstage
