import Soundstage.Proofs.Timeline.Copies
import Soundstage.Proofs.Timeline.Origin

/-!
# The order of clips

In doubles, with the rounding of each sum, a clip of a voice or a sound ends exactly where the clock
goes on, because both are the same sum. The clock is never turned back, so that these clips follow
each other without overlap and the last one ends with the program, to the bit. Clips of tracks are
placed at sums of their own: none begins before its track was started, and that none ends much later
than the program is what the last check of a build makes sure of.
-/

namespace Soundstage

open Binary64

variable {σ : Type}

namespace Build

variable {setup : Setup Float σ} {p q : Progress Float} {lines more : List (ScriptLine Float)}
  {s t u v : Session Float σ} {start finish : Float} {placed : List (Segment Float)}

/-- Clips of a run that moves the clock from one reading to another: each begins and ends between
these, and none before the one before it has ended. -/
structure InOrder (start finish : Float) (clips : List (Segment Float)) : Prop where
  between : ∀ clip ∈ clips, IsReading clip.start ∧ IsReading clip.finish ∧
    start ≤ clip.start ∧ clip.start ≤ clip.finish ∧ clip.finish ≤ finish
  apart : clips.Pairwise fun clip next => clip.finish ≤ next.start

theorem InOrder.nil (start finish : Float) : InOrder start finish [] := ⟨by simp, .nil⟩

/-- Clips in order up to a moment and from there on are in order. -/
theorem InOrder.append {clock : Float} {clips others : List (Segment Float)}
    (h : InOrder start clock clips) (h' : InOrder clock finish others) (hstart : IsReading start)
    (hclock : IsReading clock) (hfinish : IsReading finish) (hle : start ≤ clock)
    (hle' : clock ≤ finish) : InOrder start finish (clips ++ others) where
  between clip hclip := by
    rcases List.mem_append.mp hclip with hfirst | hsecond
    · obtain ⟨hbegin, hend, hafter, hself, hbefore⟩ := h.between clip hfirst
      exact ⟨hbegin, hend, hafter, hself, hend.le_trans hclock hfinish hbefore hle'⟩
    · obtain ⟨hbegin, hend, hafter, hself, hbefore⟩ := h'.between clip hsecond
      exact ⟨hbegin, hend, hstart.le_trans hclock hbegin hle hafter, hself, hbefore⟩
  apart := by
    refine List.pairwise_append.mpr ⟨h.apart, h'.apart, fun clip hclip next hnext => ?_⟩
    obtain ⟨-, hend, -, -, hbefore⟩ := h.between clip hclip
    obtain ⟨hbegin, -, hafter, -, -⟩ := h'.between next hnext
    exact hend.le_trans hclock hbegin hbefore hafter

/-- A clip at the clock ends where the clock goes on. -/
theorem inOrder_singleton {path : String} {clock secs pan : Float} (hclock : IsReading clock)
    (hsecs : Scalar.IsLength secs) : InOrder clock (clock + secs) [⟨path, clock, secs, pan⟩] where
  between clip hclip := by
    obtain rfl := List.mem_singleton.mp hclip
    obtain ⟨hfinite, hnonneg⟩ := Scalar.value_nonneg (.inl hsecs)
    have hend := hclock.add hfinite hnonneg
    exact ⟨hclock, hend, hclock.le_refl, hclock.le_add hfinite hnonneg, hend.le_refl⟩
  apart := List.pairwise_singleton _ _

/-- Voices and sounds are placed in order, by induction on the commands of a run. -/
theorem inOrder_foreground (hvalid : ∀ line ∈ more, line.command.IsValid)
    (hp : IsReading p.clock) (h : more.foldlM (step setup) p s = .ok q t) :
    InOrder p.clock q.clock (foreground setup more p s) ∧
      ∀ clip ∈ foreground setup more p s, Scalar.IsPan clip.pan := by
  induction more generalizing p s with
  | nil =>
      cases h
      exact ⟨.nil _ _, by simp [foreground]⟩
  | cons line rest ih =>
      rw [List.foldlM_cons] at h
      obtain ⟨p', u, hstep, hrest⟩ := Work.bind_eq_ok.mp h
      have hline := hvalid line List.mem_cons_self
      have hothers := fun other hother => hvalid other (List.mem_cons_of_mem line hother)
      obtain ⟨hp', hle⟩ := isReading_of_step hline hp hstep
      obtain ⟨hq, hle'⟩ := isReading_of_steps hothers hp' hrest
      obtain ⟨horder, hpans⟩ := ih hothers hp' hrest
      rw [foreground_cons hstep]
      rcases placed_of_step hstep with ⟨hforeground, path, secs, pan, hvalues, hclock, hplaced⟩ |
        ⟨hnone, -⟩
      · obtain ⟨hpan, hsecs⟩ := hvalues hline
        rw [if_pos hforeground, hplaced, ← Array.length_toList, List.drop_left]
        refine ⟨InOrder.append ?_ horder hp hp' hq hle hle', fun clip hclip => ?_⟩
        · rw [hclock]
          exact inOrder_singleton hp hsecs
        · rcases List.mem_append.mp hclip with hfirst | hsecond
          · rw [List.mem_singleton.mp hfirst]
            exact hpan
          · exact hpans clip hsecond
      · rw [if_neg (by simp [hnone]), List.nil_append]
        exact ⟨(InOrder.nil p.clock p'.clock).append horder hp hp' hq hle hle', hpans⟩

/-- A clip of a track is a tile of the time since its start. -/
theorem Track.IsLaid.exists_tile {P : Float → Prop} {track : Track Float} {clip : Segment Float}
    (h : track.IsLaid P finish placed) (hclip : clip ∈ placed) :
    ∃ loop tile, P loop ∧ IsLaidOver loop (finish - track.start) ∧
      tile ∈ layTiles loop (finish - track.start)
        (wholeCopies loop (finish - track.start) ((finish - track.start) / loop)) ∧
      clip = ⟨track.path, track.start + tile.offset, tile.duration, track.pan⟩ := by
  cases h with
  | noise hspan => cases hclip
  | @tiled loop tiles hloop htiles =>
      obtain ⟨placed, hplaced, rfl⟩ := List.mem_map.mp hclip
      obtain ⟨laid, hlaid, rfl⟩ := tileFrom_eq_ok_iff.mp htiles
      obtain ⟨tile, htile, rfl⟩ := List.mem_map.mp hplaced
      rcases tile_cases hlaid with ⟨-, rfl⟩ | ⟨hover, rfl⟩
      · cases htile
      · exact ⟨loop, tile, hloop, hover, htile, rfl⟩

/-- The clips of a track begin after its start, and have the pan of a valid command. -/
theorem Spans.start_le (hspans : Spans setup lines v start finish placed)
    (hc : checkStructure lines = .ok ()) (hcommands : commands setup lines v = .ok p t) :
    ∀ clip ∈ placed, IsReading clip.start ∧ start ≤ clip.start ∧ Scalar.IsPan clip.pan := by
  obtain @⟨before, after, number, pan, description, p₀, u₀, _, _, hlines, hbefore, hends⟩ := hspans
  have hlaid := hends.isLaid (P := fun _ => True) (fun _ _ _ _ _ _ => trivial) hc hlines hbefore
  have hpan : Scalar.IsPan pan := isValid_of_checkStructure hc
    ⟨number, .backgroundStart pan description⟩ (by simp [hlines])
  obtain ⟨hreading, -⟩ := isReading_of_commands (hlines ▸ hc) hbefore (hlines ▸ hcommands)
  intro clip hclip
  obtain ⟨loop, tile, -, hover, htile, rfl⟩ := hlaid.exists_tile hclip
  have hfinite := (hover.lt_span_sub_offset htile).1
  have hnonneg := (hover.isReading_offset htile).value_nonneg
  exact ⟨hreading.add hfinite hnonneg, hreading.le_add hfinite hnonneg, hpan⟩

/-- And they are found in the timeline side by side. -/
theorem Spans.together (hspans : Spans setup lines v start finish placed)
    (hcommands : commands setup lines v = .ok p t) (hflush : flushAll setup p t = .ok q u) :
    placed <:+: q.segments.toList := by
  obtain ⟨-, -, hends⟩ := hspans
  exact hends.together hcommands hflush

end Build

/-- What the last check of a build says of a clip, in terms of doubles. -/
theorem Segment.Within.bounds {clip : Segment Float} {total : Float} (h : clip.Within total)
    (hstart : IsReading clip.start) (htotal : IsReading total) :
    (clip.start.isFinite = true ∧ 0 ≤ clip.start) ∧
      (clip.duration.isFinite = true ∧ 0 < clip.duration) ∧ clip.finish ≤ total + 0.000001 := by
  obtain ⟨⟨hfinite, -⟩, hlength, hend⟩ := h
  have hzero : (0 : Float) = Scalar.zero := by decide
  obtain ⟨hduration, hnonneg⟩ := Scalar.value_nonneg (.inl hlength)
  have hnoise : (0.000001 : Float).isFinite = true := value_millionth.1
  have hpos : 0 ≤ value 0.000001 := millionth_pos.le
  refine ⟨⟨hfinite, ?_⟩, ⟨hduration, ?_⟩, ?_⟩
  · rw [hzero, le_iff_value_le value_zero.1 hfinite, value_zero.2]
    exact hstart.value_nonneg
  · rw [hzero, lt_iff_value_lt value_zero.1 hduration, value_zero.2]
    exact (isLength_iff_value_pos.mp hlength).2
  · exact ((htotal.add hnoise hpos).not_lt (hstart.add hduration hnonneg)).mp hend

/-- **Clips keep the order of the clock.** In a script that is built, with all sums rounded: every
clip begins at a finite time and plays for one, at a place in the stereo field. The clips of voices
and sounds do not overlap, and end with the program at the latest. A clip of a track does not begin
before its track was started, and ends a millionth of a second behind the program at the latest.
There are no other clips. -/
theorem build_keeps_order (setup : Setup Float σ) (lines : List (ScriptLine Float))
    (s t : Session Float σ) (timeline : Timeline Float) (report : Report)
    (h : build setup lines s = .ok (timeline, report) t) :
    ∃ v, Build.Opens setup lines s v ∧
      (∀ clip ∈ timeline.segments, (clip.start.isFinite = true ∧ 0 ≤ clip.start) ∧
        (clip.duration.isFinite = true ∧ 0 < clip.duration) ∧ -1 ≤ clip.pan ∧ clip.pan ≤ 1) ∧
      (Build.foreground setup lines { clock := Scalar.zero } v).Sublist timeline.segments ∧
      (Build.foreground setup lines { clock := Scalar.zero } v).Pairwise
        (fun clip next => clip.finish ≤ next.start) ∧
      (∀ clip ∈ Build.foreground setup lines { clock := Scalar.zero } v,
        clip.finish ≤ timeline.total) ∧
      (∀ start finish placed, Build.Spans setup lines v start finish placed →
        placed <:+: timeline.segments ∧
          ∀ clip ∈ placed, start ≤ clip.start ∧ clip.finish ≤ timeline.total + 0.000001) ∧
      ∀ clip ∈ timeline.segments, clip ∈ Build.foreground setup lines { clock := Scalar.zero } v ∨
        ∃ start finish placed, Build.Spans setup lines v start finish placed ∧ clip ∈ placed := by
  obtain ⟨hc, v, hopens, hconclude⟩ := build_eq_ok_iff.mp h
  obtain ⟨p, u, q, hcommands, hflush, hfinish⟩ := Build.conclude_eq_ok_iff.mp hconclude
  obtain ⟨rfl, hwithin, -⟩ := Build.finish_eq_ok hfinish
  obtain ⟨hclock, -⟩ := Build.exists_segments_of_flushes hflush
  have hvalid := isValid_of_checkStructure hc
  obtain ⟨hreading, -⟩ := Build.isReading_of_steps hvalid isReading_zero hcommands
  obtain ⟨horder, hpans⟩ := Build.inOrder_foreground hvalid isReading_zero hcommands
  have htotal : q.timeline.total = p.clock := hclock
  have horigin : ∀ clip ∈ q.timeline.segments, _ := fun clip => Build.origin hc hcommands hflush
  have hbounds : ∀ clip ∈ q.timeline.segments, IsReading clip.start →
      (clip.start.isFinite = true ∧ 0 ≤ clip.start) ∧
        (clip.duration.isFinite = true ∧ 0 < clip.duration) ∧
          clip.finish ≤ q.timeline.total + 0.000001 :=
    fun clip hclip hstart => (checkSegments_eq_ok_iff.mp hwithin clip hclip).bounds hstart
      (htotal ▸ hreading)
  refine ⟨v, hopens, fun clip hclip => ?_, Build.foreground_sublist_of_build hcommands hflush,
    horder.apart, fun clip hclip => ?_, fun start finish placed hspans => ?_, horigin⟩
  · have hone : (1 : Float) = Scalar.one := by decide +kernel
    obtain ⟨hstart, hpan⟩ : IsReading clip.start ∧ Scalar.IsPan clip.pan := by
      rcases horigin clip hclip with hforeground | ⟨start, finish, placed, hspans, hmem⟩
      · exact ⟨(horder.between clip hforeground).1, hpans clip hforeground⟩
      · obtain ⟨hstart, -, hpan⟩ := hspans.start_le hc hcommands clip hmem
        exact ⟨hstart, hpan⟩
    obtain ⟨hbegin, hlength, -⟩ := hbounds clip hclip hstart
    rw [hone]
    exact ⟨hbegin, hlength, hpan.2⟩
  · rw [htotal]
    exact (horder.between clip hclip).2.2.2.2
  · have htogether := hspans.together hcommands hflush
    refine ⟨htogether, fun clip hclip => ?_⟩
    obtain ⟨hstart, hle, -⟩ := hspans.start_le hc hcommands clip hclip
    exact ⟨hle, (hbounds clip (htogether.subset hclip) hstart).2.2⟩

/-- The four clips of the rain script are in order: a voice and three copies of the rain. -/
theorem build_keeps_order_rain :
    ∃ timeline report t, build steadySetup rainScript freshSession = .ok (timeline, report) t ∧
      timeline.segments.length = 4 ∧ timeline.total = 5 ∧
      ∃ v, Build.Opens steadySetup rainScript freshSession v ∧
        (Build.foreground steadySetup rainScript { clock := Scalar.zero } v).Pairwise
          (fun clip next => clip.finish ≤ next.start) ∧
        (∀ clip ∈ timeline.segments,
          clip ∈ Build.foreground steadySetup rainScript { clock := Scalar.zero } v ∨
            ∃ start finish placed, Build.Spans steadySetup rainScript v start finish placed ∧
              clip ∈ placed) ∧
        ∀ start finish placed, Build.Spans steadySetup rainScript v start finish placed →
          ∀ clip ∈ placed, start ≤ clip.start ∧ clip.finish ≤ 5 + 0.000001 := by
  have hanswer : ((build steadySetup rainScript).answer? freshSession).map
      (fun result => (result.1.segments.length, result.1.total)) = some (4, 5) := by decide +kernel
  obtain ⟨⟨timeline, report⟩, hsome, hvalues⟩ := Option.map_eq_some_iff.mp hanswer
  obtain ⟨hfour, htotal⟩ := Prod.ext_iff.mp hvalues
  obtain ⟨t, h⟩ := Work.answer?_eq_some_iff.mp hsome
  obtain ⟨v, hopens, -, -, happart, -, htracks, horigin⟩ :=
    build_keeps_order steadySetup rainScript freshSession t timeline report h
  have htotal : timeline.total = 5 := htotal
  rw [htotal] at htracks
  exact ⟨timeline, report, t, h, hfour, htotal, v, hopens, happart, horigin,
    fun start finish placed hspans => (htracks start finish placed hspans).2⟩

end Soundstage
