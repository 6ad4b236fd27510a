import Soundstage.Proofs.Timeline.Cover

/-!
# The limit on copies

A loop that would take too many copies is refused, so that no span is covered by more tiles than
`maxTiles`. The loop is refused by the ratio of the span to it and not by the copies that it takes:
those are counted here by `copiesTaken`, which leaves a rest within the noise uncovered. The two
disagree where the span is a whole `maxTiles` loops, or longer by no more than the noise.
-/

namespace Soundstage

section Answers

variable {R : Type} [Scalar R] {loop span : R} {failure : Failure R}

/-- The loop alone is to blame where a span cannot be covered. -/
theorem tile_eq_error_iff : tile loop span = .error failure ↔ failure = .invalidLoop loop ∧
    (Scalar.IsLength loop → ¬ (Scalar.isFinite span = false ∨ span ≤ Scalar.millionth) ∧
      (Scalar.isFinite (span / loop) = false ∨ Scalar.ofNat maxTiles ≤ span / loop)) := by
  unfold tile
  dsimp only
  split_ifs with hloop hspan hratio
  · exact iff_of_false nofun fun h => (h.2 hloop).1 hspan
  · rw [Except.error.injEq, eq_comm]
    exact ⟨fun h => ⟨h, fun _ => ⟨hspan, hratio⟩⟩, And.left⟩
  · exact iff_of_false nofun fun h => hratio (h.2 hloop).2
  · rw [Except.error.injEq, eq_comm]
    exact ⟨fun h => ⟨h, fun hlength => absurd hlength hloop⟩, And.left⟩

end Answers

section Exact

variable {loop span : ℚ} {tiles : List (Tile ℚ)} {n : ℕ}

/-- The copies that it takes to cover a span, up to the noise. -/
def copiesTaken (loop span : ℚ) : ℕ := ⌈(span - noise) / loop⌉₊

theorem copiesTaken_le_iff (hloop : 0 < loop) :
    copiesTaken loop span ≤ n ↔ span ≤ n * loop + noise := by
  unfold copiesTaken
  rw [Nat.ceil_le, div_le_iff₀ hloop, sub_le_iff_le_add]

/-- A loop is refused for the spans that are at least `maxTiles` loops long, unless they are within
the noise. -/
theorem refused_iff (hloop : 0 < loop) : tile loop span = .error (.invalidLoop loop) ↔
    noise < span ∧ maxTiles * loop ≤ span := by
  rw [tile_eq_error_iff, millionth_eq_noise]
  constructor
  · rintro ⟨-, h⟩
    obtain ⟨hworth, hratio⟩ := h (isLength_iff.mpr hloop)
    have hmany : (maxTiles : ℚ) ≤ span / loop := hratio.resolve_left nofun
    exact ⟨not_le.mp (not_or.mp hworth).2, (le_div_iff₀ hloop).mp hmany⟩
  · rintro ⟨hlong, hmany⟩
    exact ⟨rfl, fun _ => ⟨not_or.mpr ⟨nofun, not_le.mpr hlong⟩,
      .inr ((le_div_iff₀ hloop).mpr hmany)⟩⟩

/-- No loop is refused but for this. -/
theorem exists_tiles_iff (hloop : 0 < loop) : (∃ tiles, tile loop span = .ok tiles) ↔
    ¬ (noise < span ∧ maxTiles * loop ≤ span) := by
  rw [← refused_iff hloop]
  cases h : tile loop span with
  | ok tiles => exact iff_of_true ⟨tiles, rfl⟩ nofun
  | error failure =>
      obtain ⟨rfl, -⟩ := tile_eq_error_iff.mp h
      exact iff_of_false nofun fun hnot => hnot rfl

theorem sum_duration_le (h : ∀ t ∈ tiles, t.duration ≤ loop) :
    (tiles.map (·.duration)).sum ≤ tiles.length * loop := by
  have hsum := List.sum_le_card_nsmul (tiles.map (·.duration)) loop fun d hd => by
    obtain ⟨t, ht, rfl⟩ := List.mem_map.mp hd
    exact h t ht
  rwa [List.length_map, nsmul_eq_mul] at hsum

/-- Tiles that cover a span are at least as many as the copies that it takes. -/
theorem Covers.copiesTaken_le (h : Covers loop span tiles) (hloop : 0 < loop) :
    copiesTaken loop span ≤ tiles.length := by
  have hsum := sum_duration_le fun t ht => (h.playable t ht).2
  have hnear := (abs_le.mp h.total).1
  exact (copiesTaken_le_iff hloop).mpr (by linarith)

theorem copiesTaken_eq_zero (hloop : 0 < loop) (hspan : span ≤ noise) :
    copiesTaken loop span = 0 := by
  have hzero := (copiesTaken_le_iff (n := 0) hloop).mpr (by simpa using hspan)
  exact Nat.le_zero.mp hzero

/-- Between the copies that a span takes and the limit there is room for the tiles. -/
theorem length_between (hloop : 0 < loop) (h : tile loop span = .ok tiles) :
    copiesTaken loop span ≤ tiles.length ∧ tiles.length ≤ maxTiles := by
  obtain ⟨hshort, hlong⟩ := tile_covers loop span tiles h
  rcases le_or_gt span noise with hspan | hspan
  · rw [hshort hspan, copiesTaken_eq_zero hloop hspan]
    exact ⟨le_rfl, Nat.zero_le _⟩
  · exact ⟨(hlong hspan).copiesTaken_le hloop, (hlong hspan).length_le⟩

/-- **The limit on copies.** A span that takes more copies than `maxTiles` is refused. One that
takes no more is refused only if it is as long as `maxTiles` loops, or longer by no more than the
noise; of loops beyond the noise it takes exactly `maxTiles` copies then. A span that is accepted
has at least the tiles that it takes and at most `maxTiles`, and all shorter spans are accepted with
it. -/
theorem copies_are_limited (loop : ℚ) (hloop : 0 < loop) :
    (∀ span, maxTiles < copiesTaken loop span → tile loop span = .error (.invalidLoop loop)) ∧
    (∀ span failure, tile loop span = .error failure → failure = .invalidLoop loop ∧
      (copiesTaken loop span ≤ maxTiles →
        maxTiles * loop ≤ span ∧ span ≤ maxTiles * loop + noise ∧
          (noise < loop → copiesTaken loop span = maxTiles))) ∧
    (∀ span, maxTiles * loop ≤ span → noise < span →
      tile loop span = .error (.invalidLoop loop)) ∧
    (∀ span tiles, tile loop span = .ok tiles →
      copiesTaken loop span ≤ tiles.length ∧ tiles.length ≤ maxTiles ∧
        ∀ shorter ≤ span, ∃ fewer, tile loop shorter = .ok fewer) := by
  refine ⟨fun span hmany => ?_, fun span failure h => ?_, fun span hmany hlong => ?_,
    fun span tiles h => ?_⟩
  · have hbeyond : maxTiles * loop + noise < span := by
      rw [← not_le, ← copiesTaken_le_iff hloop, not_le]
      exact hmany
    have hpos : 0 ≤ maxTiles * loop := by positivity
    have hnoise := noise_pos
    exact (refused_iff hloop).mpr ⟨by linarith, by linarith⟩
  · obtain ⟨rfl, -⟩ := tile_eq_error_iff.mp h
    obtain ⟨-, hmany⟩ := (refused_iff hloop).mp h
    refine ⟨rfl, fun hfew => ⟨hmany, (copiesTaken_le_iff hloop).mp hfew, fun hclear => ?_⟩⟩
    -- With one copy less the rest is a whole loop, which is more than noise.
    have hnot : ¬ copiesTaken loop span ≤ maxTiles - 1 := by
      rw [copiesTaken_le_iff hloop]
      push_cast [maxTiles] at hmany ⊢
      linarith
    omega
  · exact (refused_iff hloop).mpr ⟨hlong, hmany⟩
  · obtain ⟨htaken, hlimit⟩ := length_between hloop h
    have haccepted := (exists_tiles_iff hloop).mp ⟨tiles, h⟩
    refine ⟨htaken, hlimit, fun shorter hle => (exists_tiles_iff hloop).mpr fun hrefused => ?_⟩
    exact haccepted ⟨hrefused.1.trans_le hle, hrefused.2.trans hle⟩

/-- A loop of two seconds is refused for two million seconds and one. -/
theorem copies_are_limited_two_seconds : (0 : ℚ) < 2 ∧ copiesTaken 2 2000001 = 1000001 ∧
    tile (2 : ℚ) 2000001 = .error (.invalidLoop 2) := by
  have hloop : (0 : ℚ) < 2 := by norm_num
  have htaken : copiesTaken 2 2000001 = 1000001 := by
    unfold copiesTaken noise
    norm_num [Nat.ceil_eq_iff]
  obtain ⟨hmany, -⟩ := copies_are_limited 2 hloop
  exact ⟨hloop, htaken, hmany 2000001 (by rw [htaken]; decide)⟩

/-- A million seconds take a million copies of a loop of one second, and are refused, with exact
fractions as well as with doubles. -/
theorem whole_limit_is_refused : copiesTaken 1 1000000 = maxTiles ∧
    tile (1 : ℚ) 1000000 = .error (.invalidLoop 1) ∧
    (tile (1 : Float) 1000000).toOption = none := by
  refine ⟨?_, (refused_iff one_pos).mpr ?_, by decide +kernel⟩
  · unfold copiesTaken noise
    norm_num [Nat.ceil_eq_iff, maxTiles]
  · norm_num [noise, maxTiles]

end Exact

end Soundstage
