import Mathlib
import Soundstage.Timeline.Tiling

/-!
# Covers of a span

What `tile` answers is said once, for every kind of number, by `tile_eq_ok_iff`. With exact
fractions the copies that it lays cover their span: they begin where the span does, each one ends
where the next one begins, all but the last are whole, and together they miss the span by no more
than the noise. The whole copies come first, and `CopiesFit` is all that has to be known of their
number.
-/

namespace Soundstage

section Answers

variable {R : Type} [Scalar R] {loop span : R} {tiles : List (Tile R)}

/-- A loop that can be played covers a span that is worth it, unless that takes too many copies. -/
theorem tile_eq_ok_iff : tile loop span = .ok tiles ↔ Scalar.IsLength loop ∧
    ((Scalar.isFinite span = false ∨ span ≤ Scalar.millionth) ∧ tiles = [] ∨
      ¬ (Scalar.isFinite span = false ∨ span ≤ Scalar.millionth) ∧
        ¬ (Scalar.isFinite (span / loop) = false ∨ Scalar.ofNat maxTiles ≤ span / loop) ∧
        tiles = layTiles loop span (wholeCopies loop span (span / loop))) := by
  unfold tile
  dsimp only
  split_ifs with hloop hspan hratio
  · rw [Except.ok.injEq]
    constructor
    · rintro rfl
      exact ⟨hloop, .inl ⟨hspan, rfl⟩⟩
    · rintro ⟨-, ⟨-, rfl⟩ | ⟨hworth, -, -⟩⟩
      · rfl
      · exact absurd hspan hworth
  · refine iff_of_false not_false ?_
    rintro ⟨-, ⟨hnoise, -⟩ | ⟨-, hfew, -⟩⟩
    · exact hspan hnoise
    · exact hfew hratio
  · rw [Except.ok.injEq]
    constructor
    · rintro rfl
      exact ⟨hloop, .inr ⟨hspan, hratio, rfl⟩⟩
    · rintro ⟨-, ⟨hnoise, -⟩ | ⟨-, -, rfl⟩⟩
      · exact absurd hnoise hspan
      · rfl
  · exact iff_of_false not_false fun h => hloop h.1

/-- A tile is one of the whole copies, or it is the rest behind them. -/
theorem mem_layTiles {copies : ℕ} {t : Tile R} : t ∈ layTiles loop span copies ↔
    (∃ i < copies, t = ⟨Scalar.ofNat i * loop, loop⟩) ∨
      Scalar.millionth < span - Scalar.ofNat copies * loop ∧
        t = ⟨Scalar.ofNat copies * loop, span - Scalar.ofNat copies * loop⟩ := by
  unfold layTiles
  dsimp only
  rw [List.mem_append, List.mem_map]
  refine or_congr ?_ ?_
  · simp only [List.mem_range, eq_comm]
  · split_ifs with hrest <;> simp [hrest]

theorem tileFrom_eq_ok_iff {start : R} : tileFrom loop start span = .ok tiles ↔
    ∃ laid, tile loop span = .ok laid ∧
      tiles = laid.map fun t => ⟨start + t.offset, t.duration⟩ := by
  unfold tileFrom
  cases tile loop span with
  | error failure => exact iff_of_false nofun fun ⟨_, h, _⟩ => nomatch h
  | ok laid =>
      constructor
      · intro h
        cases h
        exact ⟨laid, rfl, rfl⟩
      · rintro ⟨found, hfound, rfl⟩
        cases hfound
        rfl

end Answers

/-! ### Exact fractions -/

section Exact

variable {loop span rest : ℚ} {n : ℕ}

/-- What counts as noise, as a fraction. -/
def noise : ℚ := 1 / 10 ^ 6

theorem noise_pos : 0 < noise := by norm_num [noise]

theorem millionth_eq_noise : (Scalar.millionth : ℚ) = noise := by
  show mkRat 1 1000000 = 1 / 10 ^ 6
  rw [Rat.mkRat_eq_div]
  norm_num

theorem isLength_iff {secs : ℚ} : Scalar.IsLength secs ↔ 0 < secs :=
  ⟨fun h => not_le.mp h.2, fun h => ⟨rfl, not_le.mpr h⟩⟩

theorem isPause_iff {secs : ℚ} : Scalar.IsPause secs ↔ 0 ≤ secs :=
  ⟨fun h => not_lt.mp h.2, fun h => ⟨rfl, not_lt.mpr h⟩⟩

/-- A number of whole copies fits a span if they go beyond it by less than the noise, or if one copy
more would go beyond it by at least the noise. -/
inductive CopiesFit (loop span : ℚ) (n : ℕ) : Prop
  | beyond (hspan : span < n * loop) (hnoise : n * loop < span + noise)
  | within (hspan : n * loop ≤ span) (hnoise : span + noise ≤ (n + 1) * loop)

/-- Whole copies end within the span, and one more does not. -/
theorem wholePart_between (hloop : 0 < loop) (hspan : 0 ≤ span) :
    (Scalar.wholePart (span / loop) : ℚ) * loop ≤ span ∧
      span < (Scalar.wholePart (span / loop) + 1) * loop := by
  have hwhole : ((Scalar.wholePart (span / loop) : ℕ) : ℤ) = ⌊span / loop⌋ :=
    Int.toNat_of_nonneg (Int.floor_nonneg.mpr (div_nonneg hspan hloop.le))
  have hcast : ((Scalar.wholePart (span / loop) : ℕ) : ℚ) = (⌊span / loop⌋ : ℤ) := by
    exact_mod_cast hwhole
  rw [hcast, ← le_div_iff₀ hloop, ← div_lt_iff₀ hloop]
  exact ⟨Int.floor_le _, Int.lt_floor_add_one _⟩

theorem wholeCopies_eq (loop span : ℚ) : wholeCopies loop span (span / loop)
    = if -noise < span - (Scalar.wholePart (span / loop) + 1) * loop
      then Scalar.wholePart (span / loop) + 1 else Scalar.wholePart (span / loop) := by
  unfold wholeCopies
  rw [millionth_eq_noise]
  push_cast [Scalar.ofNat]
  rfl

/-- The copies of a span fit it. -/
theorem fits_wholeCopies (hloop : 0 < loop) (hspan : 0 ≤ span) :
    CopiesFit loop span (wholeCopies loop span (span / loop)) := by
  obtain ⟨hle, hlt⟩ := wholePart_between hloop hspan
  rw [wholeCopies_eq]
  split_ifs with hmissed
  · exact .beyond (by push_cast; exact hlt) (by push_cast; linarith)
  · exact .within hle (by linarith)

/-- Nor are they more than may be laid, and one less if they do not go beyond the span. -/
theorem wholeCopies_le (hloop : 0 < loop) (hspan : 0 ≤ span) (hfew : span / loop < maxTiles) :
    wholeCopies loop span (span / loop) ≤ maxTiles ∧
      (wholeCopies loop span (span / loop) * loop ≤ span →
        wholeCopies loop span (span / loop) + 1 ≤ maxTiles) := by
  obtain ⟨hle, hlt⟩ := wholePart_between hloop hspan
  have hwhole : Scalar.wholePart (span / loop) < maxTiles := by
    rw [← le_div_iff₀ hloop] at hle
    exact_mod_cast hle.trans_lt hfew
  rw [wholeCopies_eq]
  split_ifs with hmissed
  · refine ⟨hwhole, fun hwithin => absurd hwithin (not_le.mpr ?_)⟩
    push_cast
    exact hlt
  · exact ⟨hwhole.le, fun _ => hwhole⟩

/-- Whole copies of a loop, one after the other. -/
def copiesOf (loop : ℚ) (n : ℕ) : List (Tile ℚ) :=
  (List.range n).map fun i : ℕ => ⟨i * loop, loop⟩

theorem layTiles_eq (loop span : ℚ) (n : ℕ) : layTiles loop span n = copiesOf loop n
    ++ if noise < span - n * loop then [⟨n * loop, span - n * loop⟩] else [] := by
  unfold layTiles copiesOf
  rw [millionth_eq_noise]
  rfl

/-- Tiles cover a span by copies of a loop, up to the noise. -/
structure Covers (loop span : ℚ) (tiles : List (Tile ℚ)) : Prop where
  ne_nil : tiles ≠ []
  length_le : tiles.length ≤ maxTiles
  begins : tiles.head?.map (·.offset) = some 0
  joined : tiles.IsChain fun tile next => tile.offset + tile.duration = next.offset
  whole : ∀ tile ∈ tiles.dropLast, tile.duration = loop
  playable : ∀ tile ∈ tiles, 0 < tile.duration ∧ tile.duration ≤ loop
  total : |(tiles.map (·.duration)).sum - span| ≤ noise

theorem duration_of_mem_copiesOf {tile : Tile ℚ} (h : tile ∈ copiesOf loop n) :
    tile.duration = loop := by
  obtain ⟨i, -, rfl⟩ := List.mem_map.mp h
  rfl

theorem head?_copiesOf (loop : ℚ) (n : ℕ) :
    (copiesOf loop n).head? = if n = 0 then none else some ⟨0, loop⟩ := by
  unfold copiesOf
  rw [List.head?_map, List.head?_range]
  split_ifs <;> simp

theorem joined_copiesOf (loop : ℚ) (n : ℕ) :
    (copiesOf loop n).IsChain fun tile next => tile.offset + tile.duration = next.offset := by
  unfold copiesOf
  rw [List.isChain_map, List.isChain_range]
  intro i _
  push_cast
  ring

theorem sum_duration_copiesOf (loop : ℚ) (n : ℕ) :
    ((copiesOf loop n).map (·.duration)).sum = n * loop := by
  have hdurations : (copiesOf loop n).map (·.duration) = List.replicate n loop := by
    refine List.eq_replicate_iff.mpr ⟨by simp [copiesOf], fun secs hsecs => ?_⟩
    obtain ⟨tile, htile, rfl⟩ := List.mem_map.mp hsecs
    exact duration_of_mem_copiesOf htile
  rw [hdurations, List.sum_replicate, nsmul_eq_mul]

/-- Whole copies alone cover a span that they miss by no more than the noise. -/
theorem covers_copiesOf (hloop : 0 < loop) (hpos : 0 < n) (hfew : n ≤ maxTiles)
    (hnear : |n * loop - span| ≤ noise) : Covers loop span (copiesOf loop n) where
  ne_nil := by simpa [copiesOf] using hpos.ne'
  length_le := by simpa [copiesOf] using hfew
  begins := by simp [head?_copiesOf, hpos.ne']
  joined := joined_copiesOf loop n
  whole _ htile := duration_of_mem_copiesOf (List.mem_of_mem_dropLast htile)
  playable _ htile := by
    rw [duration_of_mem_copiesOf htile]
    exact ⟨hloop, le_rfl⟩
  total := by rwa [sum_duration_copiesOf]

/-- Whole copies and behind them the rest of the span cover it without a gap. -/
theorem covers_copiesOf_concat (hfew : n + 1 ≤ maxTiles)
    (hrest : 0 < rest) (hle : rest ≤ loop) (hspan : n * loop + rest = span) :
    Covers loop span (copiesOf loop n ++ [⟨n * loop, rest⟩]) where
  ne_nil := by simp
  length_le := by simpa [copiesOf] using hfew
  begins := by
    rw [List.head?_append, head?_copiesOf]
    split_ifs with hzero <;> simp [hzero]
  joined := by
    rw [List.isChain_append]
    refine ⟨joined_copiesOf loop n, List.isChain_singleton _, fun last hlast next hnext => ?_⟩
    obtain rfl : _ = next := by simpa using hnext
    cases n with
    | zero => simp [copiesOf] at hlast
    | succ m =>
        obtain rfl : _ = last := by simpa [copiesOf, List.range_succ] using hlast
        push_cast
        ring
  whole _ htile := by
    rw [List.dropLast_concat] at htile
    exact duration_of_mem_copiesOf htile
  playable _ htile := by
    rcases List.mem_append.mp htile with hcopy | hlast
    · rw [duration_of_mem_copiesOf hcopy]
      exact ⟨hrest.trans_le hle, le_rfl⟩
    · rw [List.mem_singleton.mp hlast]
      exact ⟨hrest, hle⟩
  total := by
    rw [List.map_append, List.sum_append, sum_duration_copiesOf]
    simp [hspan, noise_pos.le]

/-- The tiles that are laid for copies that fit cover the span. -/
theorem CopiesFit.covers (h : CopiesFit loop span n) (hloop : 0 < loop) (hspan : noise < span)
    (hfew : n ≤ maxTiles) (hroom : n * loop ≤ span → n + 1 ≤ maxTiles) :
    Covers loop span (layTiles loop span n) := by
  have hnoise := noise_pos
  have hpos : 0 < n * loop → 0 < n := by
    intro h
    rcases Nat.eq_zero_or_pos n with rfl | hpos
    · simp at h
    · exact hpos
  rw [layTiles_eq]
  cases h with
  | beyond hbeyond hnear =>
      rw [if_neg (by linarith), List.append_nil]
      refine covers_copiesOf hloop (hpos (by linarith)) hfew ?_
      rw [abs_of_nonneg (by linarith)]
      linarith
  | within hwithin hnext =>
      split_ifs with hrest
      · exact covers_copiesOf_concat (hroom hwithin) (by linarith) (by linarith) (by ring)
      · rw [List.append_nil]
        refine covers_copiesOf hloop (hpos (by linarith)) hfew ?_
        rw [abs_of_nonpos (by linarith)]
        linarith

/-- **Loops cover their spans.** Where a loop is not refused, a span of at most the noise has no
tiles, and a longer one is covered by them. -/
theorem tile_covers (loop span : ℚ) (tiles : List (Tile ℚ)) (h : tile loop span = .ok tiles) :
    (span ≤ noise → tiles = []) ∧ (noise < span → Covers loop span tiles) := by
  obtain ⟨⟨-, hzero⟩, hcases⟩ := tile_eq_ok_iff.mp h
  have hloop : 0 < loop := not_le.mp hzero
  rcases hcases with ⟨hnone, rfl⟩ | ⟨hworth, hfew, rfl⟩
  · rw [millionth_eq_noise] at hnone
    refine ⟨fun _ => rfl, fun hlong => ?_⟩
    rcases hnone with hinfinite | hshort
    · cases hinfinite
    · exact absurd hshort hlong.not_ge
  · rw [millionth_eq_noise, not_or] at hworth
    have hlong : noise < span := not_le.mp hworth.2
    have hspan : 0 ≤ span := noise_pos.le.trans hlong.le
    have hratio : span / loop < maxTiles := not_le.mp (not_or.mp hfew).2
    obtain ⟨hcount, hroom⟩ := wholeCopies_le hloop hspan hratio
    exact ⟨fun hshort => absurd hlong hshort.not_gt,
      fun _ => (fits_wholeCopies hloop hspan).covers hloop hlong hcount hroom⟩

/-- Five seconds take two copies of a loop of two seconds and half a copy. -/
theorem tile_covers_five_seconds :
    tile (2 : ℚ) 5 = .ok [⟨0, 2⟩, ⟨2, 2⟩, ⟨4, 1⟩] ∧ noise < 5 ∧
      Covers 2 5 [⟨0, 2⟩, ⟨2, 2⟩, ⟨4, 1⟩] := by
  have h : tile (2 : ℚ) 5 = .ok [⟨0, 2⟩, ⟨2, 2⟩, ⟨4, 1⟩] :=
    tile_eq_ok_iff.mpr ⟨by decide +kernel, .inr ⟨by decide +kernel, by decide +kernel,
      by decide +kernel⟩⟩
  have hlong : noise < 5 := by norm_num [noise]
  exact ⟨h, hlong, (tile_covers 2 5 _ h).2 hlong⟩

end Exact

end Soundstage
