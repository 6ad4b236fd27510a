import Soundstage.Proofs.Timeline.Order

/-!
# Copies that begin in time

A copy of a loop is meant to be heard within its span. All tiles but the last one begin before the
span ends, whatever the loop. The last one does so too if the loop is longer than the noise, by a
millionth of itself; then a span of exactly some loops has that many tiles, and on a clock of less
than thirty years no clip of a track begins when the track has ended. A loop that is shorter than
the noise is laid once too often where it fits exactly.
-/

namespace Soundstage

open Binary64

variable {σ : Type}

/-- What rounding leaves of a loop is more than the noise if the loop is longer by a millionth. -/
theorem millionth_lt_firmPart {loop : Float} (hloop : loop.isFinite = true)
    (hlong : 0.000001000001 ≤ loop) : value Scalar.millionth < firmPart loop := by
  obtain ⟨hfinite, hvalue⟩ : (0.000001000001 : Float).isFinite = true ∧
      value 0.000001000001 = (4722371205236128 : ℕ) * 2 ^ (-72 : ℤ) :=
    value_of_parts (by decide) (by decide)
  rw [le_iff_value_le hfinite hloop, hvalue] at hlong
  rw [value_millionth.2, firmPart]
  norm_num at hlong ⊢
  linarith

section Tiles

variable {loop span : Float} {tiles : List (Tile Float)} {t : Tile Float}

/-- Whatever the loop, only the last tile can begin when the span has ended. -/
theorem offset_lt_of_mem_dropLast (h : tile loop span = .ok tiles) (ht : t ∈ tiles.dropLast) :
    t.offset < span := by
  rcases tile_cases h with ⟨-, rfl⟩ | ⟨hover, rfl⟩
  · cases ht
  · obtain ⟨hfinite, hfirm⟩ := hover.firmPart_le_of_mem_dropLast ht
    have hpos : 0 < firmPart loop := mul_pos hover.loop_pos (by norm_num)
    rw [lt_iff_value_lt hfinite hover.span_finite]
    linarith

/-- If the loop is longer than the noise, none does. -/
theorem offset_lt_of_mem (h : tile loop span = .ok tiles) (hlong : 0.000001000001 ≤ loop)
    (ht : t ∈ tiles) : t.offset < span := by
  rcases tile_cases h with ⟨-, rfl⟩ | ⟨hover, rfl⟩
  · cases ht
  · obtain ⟨hfinite, hbegin⟩ := hover.lt_span_sub_offset ht
    have hfirm := millionth_lt_firmPart hover.loop_finite hlong
    rw [lt_iff_value_lt hfinite hover.span_finite]
    linarith [lt_min (sub_pos.mpr hfirm) millionth_pos]

/-- A finite span of exactly some loops has that many tiles, or one more if the loop is not longer
than the noise. -/
theorem length_of_exact (h : tile loop span = .ok tiles) (hspan : span.isFinite = true)
    (hlong : 0.000001 < span) {k : ℕ} (hk : value span = k * value loop) :
    tiles.length = k ∨ tiles.length = k + 1 ∧ ¬ 0.000001000001 ≤ loop := by
  have hlong : (Scalar.millionth : Float) < span := hlong
  rw [lt_iff_value_lt value_millionth.1 hspan] at hlong
  rcases tile_cases h with ⟨hnone, -⟩ | ⟨hover, rfl⟩
  · exact absurd ⟨hspan, hlong⟩ hnone
  · refine (hover.length_of_multiple hk).imp_right fun ⟨hlength, hshort⟩ => ⟨hlength, fun hle => ?_⟩
    exact absurd (millionth_lt_firmPart hover.loop_finite hle) hshort.not_gt

end Tiles

namespace Build

variable {setup : Setup Float σ} {lines : List (ScriptLine Float)} {p : Progress Float}
  {t v : Session Float σ} {start finish loop : Float} {placed : List (Segment Float)}
  {tile : Tile Float}

/-- A place within the time between two readings of the clock is not behind the second one when it
is counted from the first, and before it if the clock has not run for so long that its readings
are farther apart than the noise. -/
theorem add_offset_le (hstart : IsReading start) (hfinish : IsReading finish)
    (hle : start ≤ finish) (hfinite : finish.isFinite = true)
    (hover : IsLaidOver loop (finish - start)) (hlong : 0.000002 ≤ loop)
    (ht : tile ∈ layTiles loop (finish - start)
      (wholeCopies loop (finish - start) ((finish - start) / loop))) :
    start + tile.offset ≤ finish ∧ (finish ≤ 1000000000 → start + tile.offset < finish) := by
  have hstartf := hstart.isFinite_of_le hfinish hle hfinite
  obtain ⟨hoffsetf, hbegin⟩ := hover.lt_span_sub_offset ht
  have hoffset := hover.isReading_offset ht
  have hnoise := value_millionth.2
  have hmargin : value Scalar.millionth * (9 / 10)
      < value (finish - start) - value tile.offset := by
    obtain ⟨hfinite, hvalue⟩ : (0.000002 : Float).isFinite = true ∧
        value 0.000002 = (4722366482869645 : ℕ) * 2 ^ (-71 : ℤ) :=
      value_of_parts (by decide) (by decide)
    rw [le_iff_value_le hfinite hover.loop_finite, hvalue] at hlong
    refine lt_of_le_of_lt (le_min ?_ ?_) hbegin <;> rw [hnoise]
    · unfold firmPart
      norm_num at hlong ⊢
      linarith
    · norm_num
  have hne : value finish ≠ 0 ∨ value start ≠ 0 := by
    by_contra hzero
    rw [not_or, not_not, not_not] at hzero
    exact hover.span_pos.ne' (value_sub_of_zero hfinite hstartf hzero.1 hzero.2)
  have hrounds := roundsTo_sub hfinite hstartf hne
  have hexact : value start + value tile.offset ≤ value finish := by
    by_contra hbehind
    have hspan := hrounds.value_le_value hover.span_finite hoffsetf (by linarith)
    rw [hnoise] at hmargin
    norm_num at hmargin
    linarith
  obtain ⟨hsumf, hsum, hsum'⟩ := hstart.value_add_le hoffset hstartf hoffsetf hfinite hexact
  refine ⟨(le_iff_value_le hsumf hfinite).mpr hsum, fun hearly => ?_⟩
  obtain ⟨hbillionf, hbillion⟩ : (1000000000 : Float).isFinite = true ∧
      value 1000000000 = (8388608000000000 : ℕ) * 2 ^ (-23 : ℤ) :=
    value_of_parts (by decide) (by decide)
  rw [le_iff_value_le hfinite hbillionf, hbillion] at hearly
  rw [lt_iff_value_lt hsumf hfinite]
  have hspan := hrounds.value_le_add hover.span_finite
    (by linarith [hoffset.value_nonneg])
  have hleast : (2 : ℚ) ^ (-1022 : ℤ) ≤ 2 ^ (-30 : ℤ) :=
    zpow_le_zpow_right₀ one_le_two (by decide)
  have hbegins := hstart.value_nonneg
  rw [hnoise] at hmargin
  generalize (2 : ℚ) ^ (-1022 : ℤ) = least at hspan hsum' hleast
  norm_num at hearly hleast hmargin hspan hsum' ⊢
  linarith

/-- Both ends of a track are readings of the clock, in their order. -/
theorem Spans.isReading (hspans : Spans setup lines v start finish placed)
    (hc : checkStructure lines = .ok ()) :
    IsReading start ∧ IsReading finish ∧ start ≤ finish := by
  obtain @⟨before, after, number, pan, description, p₀, u₀, _, _, hlines, hbefore, hends⟩ := hspans
  have hvalid := isValid_of_checkStructure hc
  have hstart := (isReading_of_steps (fun line hline => hvalid line (by simp [hlines, hline]))
    isReading_zero hbefore).1
  have hlater : ∀ {more : List (ScriptLine Float)} {q : Progress Float} {t : Session Float σ},
      (∀ line ∈ more, line ∈ lines) → commands setup (before ++ more) v = .ok q t →
        IsReading q.clock ∧ p₀.clock ≤ q.clock := by
    intro more q t hmore h
    rw [commands_append, Work.bind_apply_of_ok hbefore] at h
    exact isReading_of_steps (fun line hline => hvalid line (hmore line hline)) hstart h
  refine ⟨hstart, ?_⟩
  cases hends with
  | stopped hsplit hbetween hstop hcommands hstep hplaced =>
      refine hlater (fun line hline => ?_) hcommands
      rw [hsplit]
      rcases List.mem_cons.mp hline with rfl | hline <;> simp [*]
  | left hsplit hafter hcommands hlive htrack hfront hleft hplaced =>
      rw [hlines] at hcommands
      exact hlater (fun line hline => by simp [hlines, List.mem_cons.mp hline]) hcommands

/-- Where loops are longer than the noise, no clip of a track begins when the track has ended. -/
theorem Spans.start_le_finish (hspans : Spans setup lines v start finish placed)
    (hmeasures : setup.Measures (0.000002 ≤ ·)) (hc : checkStructure lines = .ok ()) :
    ∀ clip ∈ placed, clip.start ≤ finish ∧ (finish ≤ 1000000000 → clip.start < finish) := by
  obtain ⟨hstart, hfinish, hle⟩ := hspans.isReading hc
  obtain @⟨before, after, number, pan, description, p₀, u₀, _, _, hlines, hbefore, hends⟩ := hspans
  intro clip hclip
  obtain ⟨loop, tile, hloop, hover, htile, rfl⟩ :=
    (hends.isLaid hmeasures hc hlines hbefore).exists_tile hclip
  cases hfinite : finish.isFinite with
  | true => exact add_offset_le hstart hfinish hle hfinite hover hloop htile
  | false =>
      have hbegin := hstart.add (hover.lt_span_sub_offset htile).1
        (hover.isReading_offset htile).value_nonneg
      refine ⟨?_, fun hearly => ?_⟩
      · rw [hbegin.le_iff_pattern_le hfinish, hfinish.pattern_eq hfinite]
        exact hbegin.pattern_le
      · have hbillion : IsReading (1000000000 : Float) := ⟨by decide, by decide⟩
        have htrue := hfinish.isFinite_of_le hbillion hearly (by decide +kernel)
        rw [hfinite] at htrue
        cases htrue

end Build

/-- **Copies begin within their span.** All tiles but the last one begin before the span ends. If
the loop is longer than the noise by a millionth, so does the last one, and a finite span of exactly
some loops has that many tiles; otherwise it may have one more. In a build whose loops are all twice
as long as the noise, no clip of a track begins behind the end of the track, nor at the end if that
is within a billion seconds. -/
theorem copies_begin_within (setup : Setup Float σ) (lines : List (ScriptLine Float))
    (s : Session Float σ) (loop span : Float) :
    (∀ tiles, tile loop span = .ok tiles → 0.000001 < span →
      (∀ t ∈ tiles.dropLast, t.offset < span) ∧
      (0.000001000001 ≤ loop → ∀ t ∈ tiles, t.offset < span) ∧
      ∀ k : ℕ, span.isFinite = true → value span = k * value loop →
        tiles.length = k ∨ tiles.length = k + 1 ∧ ¬ 0.000001000001 ≤ loop) ∧
    ∀ t timeline report,
      build setup lines s = .ok (timeline, report) t → setup.Measures (0.000002 ≤ ·) →
        ∃ v, Build.Opens setup lines s v ∧
          ∀ start finish placed, Build.Spans setup lines v start finish placed →
            placed <:+: timeline.segments ∧ ∀ clip ∈ placed,
              clip.start ≤ finish ∧ (finish ≤ 1000000000 → clip.start < finish) := by
  refine ⟨fun tiles h hlong => ⟨fun t ht => offset_lt_of_mem_dropLast h ht,
    fun hloop t ht => offset_lt_of_mem h hloop ht,
    fun k hspan hk => length_of_exact h hspan hlong hk⟩, ?_⟩
  intro t timeline report h hmeasures
  obtain ⟨hc, v, hopens, hconclude⟩ := build_eq_ok_iff.mp h
  obtain ⟨p, u, q, hcommands, hflush, hfinish⟩ := Build.conclude_eq_ok_iff.mp hconclude
  obtain ⟨rfl, -, -⟩ := Build.finish_eq_ok hfinish
  exact ⟨v, hopens, fun start finish placed hspans =>
    ⟨hspans.together hcommands hflush, hspans.start_le_finish hmeasures hc⟩⟩

/-- Four seconds are two loops of two seconds, and the rain is measured at two seconds. -/
theorem copies_begin_within_four_seconds :
    (∃ tiles, tile (2 : Float) 4 = .ok tiles ∧ tiles.length = 2 ∧ ∀ t ∈ tiles, t.offset < 4) ∧
      ∃ timeline report t, build steadySetup rainScript freshSession = .ok (timeline, report) t ∧
        ∃ v, Build.Opens steadySetup rainScript freshSession v ∧
          ∀ start finish placed, Build.Spans steadySetup rainScript v start finish placed →
            ∀ clip ∈ placed, clip.start ≤ finish ∧ (finish ≤ 1000000000 → clip.start < finish) := by
  refine ⟨?_, ?_⟩
  · have hanswer : (tile (2 : Float) 4).toOption = some [⟨0, 2⟩, ⟨2, 2⟩] := by decide +kernel
    have htile : tile (2 : Float) 4 = .ok [⟨0, 2⟩, ⟨2, 2⟩] := by
      cases h : tile (2 : Float) 4 with
      | error failure =>
          rw [h] at hanswer
          cases hanswer
      | ok tiles =>
          rw [h] at hanswer
          exact congrArg _ (Option.some.inj hanswer)
    have hvalues : value (4 : Float) = (2 : ℕ) * value 2 := by
      obtain ⟨-, hfour⟩ : (4 : Float).isFinite = true ∧
          value 4 = (4503599627370496 : ℕ) * 2 ^ (-50 : ℤ) :=
        value_of_parts (by decide +kernel) (by decide +kernel)
      obtain ⟨-, htwo⟩ : (2 : Float).isFinite = true ∧
          value 2 = (4503599627370496 : ℕ) * 2 ^ (-51 : ℤ) :=
        value_of_parts (by decide +kernel) (by decide +kernel)
      rw [hfour, htwo]
      norm_num
    have hloop : (0.000001000001 : Float) ≤ 2 := by decide +kernel
    obtain ⟨-, hoffsets, hcount⟩ :=
      (copies_begin_within steadySetup rainScript freshSession 2 4).1 _ htile (by decide +kernel)
    refine ⟨_, htile, ?_, hoffsets hloop⟩
    exact (hcount 2 (by decide +kernel) hvalues).resolve_right fun hmore => hmore.2 hloop
  · have hanswer : ((build steadySetup rainScript).answer? freshSession).isSome = true := by
      decide +kernel
    obtain ⟨⟨timeline, report⟩, t, h⟩ := Work.isSome_answer?_iff.mp hanswer
    have hmeasures : steadySetup.Measures (0.000002 ≤ ·) := by
      intro path disk cancelled state secs hsecs
      cases hsecs
      decide +kernel
    obtain ⟨v, hopens, hspans⟩ :=
      (copies_begin_within steadySetup rainScript freshSession 2 4).2 t timeline report h hmeasures
    exact ⟨timeline, report, t, h, v, hopens,
      fun start finish placed hspan => (hspans start finish placed hspan).2⟩

/-- Half a microsecond of rain fits four times into two microseconds, and is laid five times: the
last tile begins where the span ends. -/
theorem copies_may_begin_late :
    value 0.0000019073486328125 = (4 : ℕ) * value 0.000000476837158203125 ∧
      ∃ tiles, tile (0.000000476837158203125 : Float) 0.0000019073486328125 = .ok tiles ∧
        tiles.length = 5 ∧ ∃ t ∈ tiles, ¬ t.offset < 0.0000019073486328125 := by
  refine ⟨?_, ?_⟩
  · obtain ⟨-, hspan⟩ : (0.0000019073486328125 : Float).isFinite = true ∧
        value 0.0000019073486328125 = (4503599627370496 : ℕ) * 2 ^ (-71 : ℤ) :=
      value_of_parts (by decide +kernel) (by decide +kernel)
    obtain ⟨-, hloop⟩ : (0.000000476837158203125 : Float).isFinite = true ∧
        value 0.000000476837158203125 = (4503599627370496 : ℕ) * 2 ^ (-73 : ℤ) :=
      value_of_parts (by decide +kernel) (by decide +kernel)
    rw [hspan, hloop]
    norm_num
  · have hanswer : (tile (0.000000476837158203125 : Float) 0.0000019073486328125).toOption.map
        (fun tiles => (tiles.length, tiles.any fun t => !decide (t.offset < 0.0000019073486328125)))
        = some (5, true) := by decide +kernel
    cases h : tile (0.000000476837158203125 : Float) 0.0000019073486328125 with
    | error failure =>
        rw [h] at hanswer
        cases hanswer
    | ok tiles =>
        rw [h] at hanswer
        obtain ⟨hfive, hlate⟩ := Prod.ext_iff.mp (Option.some.inj hanswer)
        obtain ⟨t, ht, hnot⟩ := List.any_eq_true.mp hlate
        exact ⟨tiles, rfl, hfive, t, ht, by simpa using hnot⟩

end Soundstage
