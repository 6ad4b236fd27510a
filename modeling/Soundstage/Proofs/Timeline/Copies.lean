import Soundstage.Proofs.Number.Order
import Soundstage.Proofs.Timeline.Cover
import Soundstage.Proofs.Timeline.Overflow

/-!
# Copies of a loop in doubles

Doubles round the ratio of a span to its loop, the places of the copies and the rest behind them.
Where at most a million copies are laid, all this moves a place by less than a `2 ^ 32`th part of
the loop. So a copy that the rounded whole part asks for begins a whole loop before the span ends,
and a rest begins before the span ends by more than the noise. The copy that is laid because a span
misses it by less than the noise begins before the end if the loop is longer than the noise.
-/

namespace Soundstage

open Binary64

theorem maxTiles_cast : ((maxTiles : ℕ) : ℚ) = 10 ^ 6 := by norm_num [maxTiles]

/-- The part of a loop that rounding leaves. -/
def firmPart (loop : Float) : ℚ := value loop * (1 - 1 / 2 ^ 32)

/-- A finite loop that is laid over a finite span, not too often. -/
structure IsLaidOver (loop span : Float) : Prop where
  loop_finite : loop.isFinite = true
  loop_pos : 0 < value loop
  span_finite : span.isFinite = true
  span_long : value Scalar.millionth < value span
  ratio_finite : (span / loop).isFinite = true
  ratio_lt : value (span / loop) < maxTiles

/-- Either a span has no tiles, because it has run over or is noise, or copies are laid over it. -/
theorem tile_cases {loop span : Float} {tiles : List (Tile Float)}
    (h : tile loop span = .ok tiles) :
    (¬ (span.isFinite = true ∧ value Scalar.millionth < value span) ∧ tiles = []) ∨
      IsLaidOver loop span ∧ tiles = layTiles loop span (wholeCopies loop span (span / loop)) := by
  obtain ⟨⟨hloop, hzero⟩, hcases⟩ := tile_eq_ok_iff.mp h
  rcases hcases with ⟨hnone, rfl⟩ | ⟨hworth, hfew, rfl⟩
  · refine .inl ⟨?_, rfl⟩
    rintro ⟨hfinite, hlong⟩
    rcases hnone with hinfinite | hshort
    · exact absurd hfinite (by rw [show span.isFinite = false from hinfinite]; decide)
    · rw [le_iff_value_le hfinite value_millionth.1] at hshort
      exact absurd hlong hshort.not_gt
  · rw [not_or, Bool.not_eq_false] at hworth hfew
    obtain ⟨hspan, hlong⟩ := hworth
    obtain ⟨hratio, hmax⟩ := hfew
    have hspan : span.isFinite = true := hspan
    have hratio : (span / loop).isFinite = true := hratio
    have hloop : loop.isFinite = true := hloop
    obtain ⟨-, hcount, hvalue⟩ := isReading_count (show maxTiles < 2 * mantissaFloor by decide)
    rw [le_iff_value_le hspan value_millionth.1, not_le] at hlong
    rw [le_iff_value_le hcount hratio, hvalue, not_le] at hmax
    rw [le_iff_value_le hloop value_zero.1, value_zero.2, not_le] at hzero
    exact .inr ⟨⟨hloop, hzero, hspan, hlong, hratio, hmax⟩, rfl⟩

namespace IsLaidOver

variable {loop span : Float} {i : ℕ} {t : Tile Float}

theorem span_pos (h : IsLaidOver loop span) : 0 < value span :=
  millionth_pos.trans h.span_long

theorem ratio_pos (h : IsLaidOver loop span) : 0 < value span / value loop :=
  div_pos h.span_pos h.loop_pos

theorem rounds (h : IsLaidOver loop span) :
    RoundsTo (value span / value loop) (span / loop) :=
  roundsTo_div h.span_finite h.loop_finite h.ratio_pos.ne'

/-- What a count of up to a million says about the ratio, it says about the rounded ratio. -/
theorem le_ratio (h : IsLaidOver loop span) (hi : i ≤ maxTiles)
    (hle : i * value loop ≤ value span) : (i : ℚ) ≤ value (span / loop) := by
  obtain ⟨-, hcount, hvalue⟩ := isReading_count (hi.trans_lt (show maxTiles < _ by decide))
  rw [← hvalue]
  refine h.rounds.value_ge_value h.ratio_finite hcount ?_
  rw [hvalue, le_div_iff₀ h.loop_pos]
  exact hle

theorem span_lt (h : IsLaidOver loop span) : value span < maxTiles * value loop := by
  by_contra hge
  exact absurd h.ratio_lt (h.le_ratio le_rfl (not_lt.mp hge)).not_gt

/-- The whole part of the rounded ratio. -/
theorem whole_between (h : IsLaidOver loop span) :
    (Scalar.wholePart (span / loop) : ℚ) ≤ value (span / loop) ∧
      value (span / loop) < Scalar.wholePart (span / loop) + 1 := by
  have hzero : (0 : ℚ) ≤ value (span / loop) := by
    have hnone := h.le_ratio (i := 0) (Nat.zero_le _) (by
      rw [Nat.cast_zero, zero_mul]
      exact h.span_pos.le)
    exact_mod_cast hnone
  refine wholePart_between_of_lt h.ratio_finite hzero (h.ratio_lt.trans ?_)
  rw [maxTiles_cast]
  norm_num

theorem whole_lt (h : IsLaidOver loop span) : Scalar.wholePart (span / loop) < maxTiles := by
  exact_mod_cast h.whole_between.1.trans_lt h.ratio_lt

/-- One copy more than the whole part goes beyond the span. -/
theorem span_lt_next (h : IsLaidOver loop span) :
    value span < (Scalar.wholePart (span / loop) + 1 : ℕ) * value loop := by
  by_contra hge
  have hle := h.le_ratio h.whole_lt (not_lt.mp hge)
  push_cast at hle
  exact absurd h.whole_between.2 hle.not_gt

/-- The whole part itself goes beyond it by a rounding at most. -/
theorem whole_mul_le (h : IsLaidOver loop span) :
    Scalar.wholePart (span / loop) * value loop ≤ value span * (1 + 1 / 2 ^ 53) := by
  rcases Nat.eq_zero_or_pos (Scalar.wholePart (span / loop)) with hzero | hpos
  · rw [hzero, Nat.cast_zero, zero_mul]
    exact mul_nonneg h.span_pos.le (by positivity)
  have hwhole := h.whole_between.1
  have hone : (1 : ℚ) ≤ Scalar.wholePart (span / loop) := by exact_mod_cast hpos
  have htwice := h.rounds.value_le_two_mul h.ratio_finite h.ratio_pos.le
  have hhalf : (2 : ℚ) ^ (-1022 : ℤ) ≤ value span / value loop := by
    have hsmall : (2 : ℚ) ^ (-1022 : ℤ) ≤ 2 ^ (-1 : ℤ) :=
      zpow_le_zpow_right₀ one_le_two (by decide)
    refine hsmall.trans ?_
    rw [zpow_neg_one]
    linarith
  have hle := (h.rounds.value_between h.ratio_finite hhalf).2
  rw [div_mul_eq_mul_div, le_div_iff₀ h.loop_pos] at hle
  exact (mul_le_mul_of_nonneg_right hwhole h.loop_pos.le).trans hle

/-! ### Places of copies -/

/-- Doubles have all their digits where copies are laid. -/
theorem normal_loop (h : IsLaidOver loop span) : 2 ^ (-1022 : ℤ) ≤ value loop := by
  have hlong := h.span_long.trans h.span_lt
  rw [value_millionth.2, maxTiles_cast] at hlong
  have hsmall : (2 : ℚ) ^ (-1022 : ℤ) ≤ 2 ^ (-40 : ℤ) :=
    zpow_le_zpow_right₀ one_le_two (by decide)
  refine hsmall.trans ?_
  norm_num at hlong ⊢
  linarith

theorem isReading_copy (h : IsLaidOver loop span) (hi : i ≤ maxTiles) :
    IsReading (Scalar.ofNat i * loop) := by
  obtain ⟨hreading, hcount, -⟩ := isReading_count (hi.trans_lt (show maxTiles < _ by decide))
  exact hreading.mul (isReading_of_pos h.loop_finite h.loop_pos) hcount h.loop_finite

theorem value_copy_zero (h : IsLaidOver loop span) :
    (Scalar.ofNat 0 * loop).isFinite = true ∧ value (Scalar.ofNat 0 * loop) = 0 := by
  have hzero : (Scalar.ofNat 0 : Float) = 0.0 := by decide
  rw [hzero]
  exact zero_mul_value h.loop_finite

theorem rounds_copy (h : IsLaidOver loop span) (hi : i ≤ maxTiles) (hpos : 0 < i) :
    RoundsTo (i * value loop) (Scalar.ofNat i * loop) := by
  obtain ⟨-, hcount, hvalue⟩ := isReading_count (hi.trans_lt (show maxTiles < _ by decide))
  have hproduct : 0 < (i : ℚ) * value loop := mul_pos (by exact_mod_cast hpos) h.loop_pos
  rw [← hvalue] at hproduct ⊢
  exact roundsTo_mul hcount h.loop_finite hproduct.ne'

/-- The place of a copy is moved by rounding in proportion. -/
theorem copy_between (h : IsLaidOver loop span) (hi : i ≤ maxTiles)
    (hfinite : (Scalar.ofNat i * loop).isFinite = true) :
    i * value loop * (1 - 1 / 2 ^ 53) ≤ value (Scalar.ofNat i * loop) ∧
      value (Scalar.ofNat i * loop) ≤ i * value loop * (1 + 1 / 2 ^ 53) := by
  rcases Nat.eq_zero_or_pos i with rfl | hpos
  · rw [h.value_copy_zero.2]
    norm_num
  · refine (h.rounds_copy hi hpos).value_between hfinite (h.normal_loop.trans ?_)
    exact le_mul_of_one_le_left h.loop_pos.le (by exact_mod_cast hpos)

/-- A copy whose place is exactly before a double is placed no later. -/
theorem copy_le (h : IsLaidOver loop span) {y : Float} (hi : i ≤ maxTiles)
    (hy : y.isFinite = true) (hle : i * value loop ≤ value y) :
    (Scalar.ofNat i * loop).isFinite = true ∧ value (Scalar.ofNat i * loop) ≤ value y := by
  have hproduct : 0 ≤ (i : ℚ) * value loop := mul_nonneg (Nat.cast_nonneg i) h.loop_pos.le
  rcases Nat.eq_zero_or_pos i with rfl | hpos
  · rw [h.value_copy_zero.2]
    exact ⟨h.value_copy_zero.1, hproduct.trans hle⟩
  · have hrounds := h.rounds_copy hi hpos
    have hfinite := hrounds.isFinite_of_le hy hproduct hle
    exact ⟨hfinite, hrounds.value_le_value hfinite hy hle⟩

/-- What is left of the span behind a place: where the rounded rest is beyond a double, so is the
exact one. -/
theorem lt_rest (h : IsLaidOver loop span) {z : Float} (hi : i ≤ maxTiles)
    (hz : z.isFinite = true) (hlt : z < span - Scalar.ofNat i * loop) :
    (Scalar.ofNat i * loop).isFinite = true ∧
      value z < value span - value (Scalar.ofNat i * loop) := by
  have hreading := h.isReading_copy hi
  cases hfinite : (Scalar.ofNat i * loop).isFinite with
  | false =>
      rw [hreading.eq_posInfinity hfinite] at hlt
      exact absurd hlt (not_lt_sub_posInfinity h.span_finite hz)
  | true =>
      have hspan := isReading_of_pos h.span_finite h.span_pos
      have hrest := hspan.isFinite_sub hreading h.span_finite hfinite
      refine ⟨rfl, not_le.mp fun hle => ?_⟩
      have hrounds := roundsTo_sub h.span_finite hfinite (.inl h.span_pos.ne')
      rw [lt_iff_value_lt hz hrest] at hlt
      exact absurd hlt (hrounds.value_le_value hrest hz hle).not_gt

/-! ### Where copies begin -/

theorem wholeCopies_cases (h : IsLaidOver loop span) :
    (wholeCopies loop span (span / loop) = Scalar.wholePart (span / loop) + 1 ∧
        (Scalar.ofNat (Scalar.wholePart (span / loop) + 1) * loop).isFinite = true ∧
        -value Scalar.millionth < value span
          - value (Scalar.ofNat (Scalar.wholePart (span / loop) + 1) * loop)) ∨
      wholeCopies loop span (span / loop) = Scalar.wholePart (span / loop) := by
  unfold wholeCopies
  dsimp only
  split_ifs with hmissed
  · rw [← value_neg value_millionth.1]
    exact .inl ⟨rfl, h.lt_rest h.whole_lt (isFinite_neg value_millionth.1) hmissed⟩
  · exact .inr rfl

/-- A copy that the whole part asks for begins a loop before the span ends. -/
theorem firmPart_le_of_lt_whole (h : IsLaidOver loop span)
    (hi : i < Scalar.wholePart (span / loop)) :
    (Scalar.ofNat i * loop).isFinite = true ∧
      firmPart loop ≤ value span - value (Scalar.ofNat i * loop) := by
  have hmax : i ≤ maxTiles := (hi.trans h.whole_lt).le
  have hnext : ((i : ℚ) + 1) * value loop ≤ value span * (1 + 1 / 2 ^ 53) := by
    refine le_trans ?_ h.whole_mul_le
    exact mul_le_mul_of_nonneg_right (by exact_mod_cast hi) h.loop_pos.le
  have hspan := h.span_lt
  rw [maxTiles_cast] at hspan
  obtain ⟨hfinite, -⟩ := h.copy_le hmax h.span_finite (show i * value loop ≤ value span by
    linarith [h.loop_pos])
  have hoffset := (h.copy_between hmax hfinite).2
  refine ⟨hfinite, ?_⟩
  unfold firmPart
  nlinarith [h.loop_pos]

/-- The copy that is laid because the span misses it by less than the noise. -/
theorem firmPart_lt_of_missed (h : IsLaidOver loop span)
    (hfinite : (Scalar.ofNat (Scalar.wholePart (span / loop) + 1) * loop).isFinite = true)
    (hmissed : -value Scalar.millionth < value span
      - value (Scalar.ofNat (Scalar.wholePart (span / loop) + 1) * loop)) :
    (Scalar.ofNat (Scalar.wholePart (span / loop)) * loop).isFinite = true ∧
      firmPart loop - value Scalar.millionth
        < value span - value (Scalar.ofNat (Scalar.wholePart (span / loop)) * loop) := by
  set n := Scalar.wholePart (span / loop) with hn
  have hend := (h.copy_between h.whole_lt hfinite).1
  have hcount : (n : ℚ) + 1 ≤ 10 ^ 6 := by
    rw [← maxTiles_cast]
    exact_mod_cast h.whole_lt
  have hloop := h.loop_pos
  have hscaled : ((n : ℚ) + 1) * value loop ≤ 10 ^ 6 * value loop :=
    mul_le_mul_of_nonneg_right hcount hloop.le
  push_cast at hend
  obtain ⟨hplace, -⟩ := h.copy_le h.whole_lt.le hfinite (show n * value loop ≤ _ by linarith)
  have hoffset := (h.copy_between h.whole_lt.le hplace).2
  refine ⟨hplace, ?_⟩
  unfold firmPart
  linarith

/-- Behind that copy nothing is left. -/
theorem not_rest_of_missed (h : IsLaidOver loop span)
    (hfinite : (Scalar.ofNat (Scalar.wholePart (span / loop) + 1) * loop).isFinite = true) :
    ¬ Scalar.millionth < span - Scalar.ofNat (Scalar.wholePart (span / loop) + 1) * loop := by
  intro hrest
  have hleft := (h.lt_rest h.whole_lt value_millionth.1 hrest).2
  have hbeyond := (h.rounds_copy h.whole_lt (Nat.succ_pos _)).value_ge_value hfinite h.span_finite
    h.span_lt_next.le
  rw [value_millionth.2] at hleft
  have hnoise : (0 : ℚ) < 4722366482869645 * 2 ^ (-72 : ℤ) := by positivity
  linarith

theorem wholeCopies_le (h : IsLaidOver loop span) :
    wholeCopies loop span (span / loop) ≤ maxTiles := by
  rcases h.wholeCopies_cases with ⟨heq, -⟩ | heq <;> rw [heq]
  · exact h.whole_lt
  · exact h.whole_lt.le

/-- Each tile begins before the span ends: a whole loop before it, more than the noise before it, or
at least by what the loop is longer than the noise. -/
theorem lt_span_sub_offset (h : IsLaidOver loop span)
    (ht : t ∈ layTiles loop span (wholeCopies loop span (span / loop))) :
    t.offset.isFinite = true ∧ min (firmPart loop - value Scalar.millionth) (value Scalar.millionth)
      < value span - value t.offset := by
  have hnoise : 0 < value (Scalar.millionth : Float) := by
    rw [value_millionth.2]
    positivity
  have hwhole : ∀ i < Scalar.wholePart (span / loop),
      (Scalar.ofNat i * loop).isFinite = true ∧
        min (firmPart loop - value Scalar.millionth) (value Scalar.millionth)
          < value span - value (Scalar.ofNat i * loop) := by
    intro i hi
    obtain ⟨hfinite, hfirm⟩ := h.firmPart_le_of_lt_whole hi
    exact ⟨hfinite, (min_le_left _ _).trans_lt (by linarith)⟩
  rcases mem_layTiles.mp ht with ⟨i, hi, rfl⟩ | ⟨hrest, rfl⟩
  · rcases h.wholeCopies_cases with ⟨heq, hfinite, hmissed⟩ | heq <;> rw [heq] at hi
    · rcases (Nat.le_of_lt_succ hi).lt_or_eq with hlt | rfl
      · exact hwhole i hlt
      · obtain ⟨hplace, hfirm⟩ := h.firmPart_lt_of_missed hfinite hmissed
        exact ⟨hplace, (min_le_left _ _).trans_lt hfirm⟩
    · exact hwhole i hi
  · obtain ⟨hfinite, hleft⟩ := h.lt_rest h.wholeCopies_le value_millionth.1 hrest
    exact ⟨hfinite, (min_le_right _ _).trans_lt hleft⟩

theorem isReading_offset (h : IsLaidOver loop span)
    (ht : t ∈ layTiles loop span (wholeCopies loop span (span / loop))) : IsReading t.offset := by
  rcases mem_layTiles.mp ht with ⟨i, hi, rfl⟩ | ⟨-, rfl⟩
  · exact h.isReading_copy (hi.le.trans h.wholeCopies_le)
  · exact h.isReading_copy h.wholeCopies_le

/-- All tiles but the last one begin a whole loop before the span ends. -/
theorem firmPart_le_of_mem_dropLast (h : IsLaidOver loop span)
    (ht : t ∈ (layTiles loop span (wholeCopies loop span (span / loop))).dropLast) :
    t.offset.isFinite = true ∧ firmPart loop ≤ value span - value t.offset := by
  have hcopies : ∀ t ∈ (List.range (Scalar.wholePart (span / loop))).map
      (fun i => (⟨Scalar.ofNat i * loop, loop⟩ : Tile Float)),
      t.offset.isFinite = true ∧ firmPart loop ≤ value span - value t.offset := by
    intro t ht
    obtain ⟨i, hi, rfl⟩ := List.mem_map.mp ht
    exact h.firmPart_le_of_lt_whole (List.mem_range.mp hi)
  unfold layTiles at ht
  dsimp only at ht
  rcases h.wholeCopies_cases with ⟨heq, hfinite, -⟩ | heq
  · rw [heq, if_neg (h.not_rest_of_missed hfinite), List.append_nil, List.range_succ,
      List.map_append, List.map_singleton, List.dropLast_concat] at ht
    exact hcopies t ht
  · rw [heq] at ht
    split_ifs at ht with hrest
    · rw [List.dropLast_concat] at ht
      exact hcopies t ht
    · rw [List.append_nil] at ht
      exact hcopies t (List.mem_of_mem_dropLast ht)

/-- Of a span that is exactly a number of loops, the whole part of the ratio is this number. -/
theorem wholePart_of_multiple (h : IsLaidOver loop span) {k : ℕ}
    (hspan : value span = k * value loop) : Scalar.wholePart (span / loop) = k ∧ 0 < k := by
  have hmax : k < maxTiles := by
    have hlt := h.span_lt
    rw [hspan] at hlt
    exact_mod_cast lt_of_mul_lt_mul_right hlt h.loop_pos.le
  have hcount := (isReading_count (hmax.trans (show maxTiles < _ by decide))).2
  -- The ratio is a double itself, so that it is not rounded.
  have hratio : value (span / loop) = k := by
    have hrounds := h.rounds
    rw [hspan, mul_div_cancel_right₀ _ h.loop_pos.ne', ← hcount.2] at hrounds
    rw [(hrounds.value_eq_value hcount.1).2, hcount.2]
  obtain ⟨hle, hlt⟩ := h.whole_between
  rw [hratio] at hle hlt
  have hle : Scalar.wholePart (span / loop) ≤ k := by exact_mod_cast hle
  have hlt : k < Scalar.wholePart (span / loop) + 1 := by exact_mod_cast hlt
  refine ⟨by omega, Nat.pos_of_ne_zero ?_⟩
  rintro rfl
  rw [Nat.cast_zero, zero_mul] at hspan
  exact h.span_pos.ne' hspan

/-- It has as many tiles, and may have one more only if the noise is longer than what rounding
leaves of the loop. -/
theorem length_of_multiple (h : IsLaidOver loop span) {k : ℕ}
    (hspan : value span = k * value loop) :
    (layTiles loop span (wholeCopies loop span (span / loop))).length = k ∨
      (layTiles loop span (wholeCopies loop span (span / loop))).length = k + 1 ∧
        firmPart loop < value Scalar.millionth := by
  obtain ⟨hwhole, hpos⟩ := h.wholePart_of_multiple hspan
  have hmax : k < maxTiles := hwhole ▸ h.whole_lt
  have hloop := h.loop_pos
  unfold layTiles
  dsimp only
  rcases h.wholeCopies_cases with ⟨heq, hfinite, hmissed⟩ | heq
  · rw [heq, if_neg (h.not_rest_of_missed hfinite), List.append_nil, List.length_map,
      List.length_range, hwhole]
    refine .inr ⟨rfl, ?_⟩
    have hend := (h.copy_between h.whole_lt hfinite).1
    rw [hwhole] at hend hmissed
    have hcount : (k : ℚ) + 1 ≤ 10 ^ 6 := by
      rw [← maxTiles_cast]
      exact_mod_cast hmax
    have hscaled : ((k : ℚ) + 1) * value loop ≤ 10 ^ 6 * value loop :=
      mul_le_mul_of_nonneg_right hcount hloop.le
    push_cast at hend
    unfold firmPart
    linarith
  · have hrest : ¬ Scalar.millionth < span - Scalar.ofNat k * loop := by
      intro hrest
      obtain ⟨hfinite, hleft⟩ := h.lt_rest hmax.le value_millionth.1 hrest
      have hrounds := h.rounds_copy hmax.le hpos
      rw [← hspan] at hrounds
      rw [(hrounds.value_eq_value h.span_finite).2, sub_self, value_millionth.2] at hleft
      exact absurd hleft (not_lt.mpr (by positivity))
    rw [heq, hwhole, if_neg hrest, List.append_nil, List.length_map, List.length_range]
    exact .inl rfl

end IsLaidOver

end Soundstage
