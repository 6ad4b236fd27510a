import Soundstage.Proofs.Number.Order
import Soundstage.Proofs.Timeline.Cover
import Soundstage.Proofs.Timeline.Ending
import Soundstage.Studio

/-!
# A clock that runs over

Each length of a script is finite, but their sum may not be: the clock of a build can run over to
infinity, and a track over an infinite span is given no clips. That is the only way in which a track
gets lost. A build of doubles ends with a clock that is finite or infinite, never negative or
undefined; where it is finite so are all spans, and a track whose span is finite and longer than the
noise has a clip.
-/

namespace Soundstage

variable {R σ : Type}

namespace Build

/-- A command moves the clock on by a length or a pause, or not at all. -/
theorem clock_of_step [Scalar R] {setup : Setup R σ} {p q : Progress R} {line : ScriptLine R}
    {s t : Session R σ} (hvalid : line.command.IsValid) (h : step setup p line s = .ok q t) :
    q.clock = p.clock ∨
      ∃ secs, (Scalar.IsLength secs ∨ Scalar.IsPause secs) ∧ q.clock = p.clock + secs := by
  obtain ⟨p', u, -, happly, rfl⟩ := step_eq_ok_iff.mp h
  obtain ⟨number, command⟩ := line
  cases command with
  | voice pan phrase =>
      obtain ⟨u, secs, -, hmeasure, rfl⟩ := apply_voice_eq_ok_iff.mp happly
      exact .inr ⟨secs, .inl (measure_eq_ok_iff.mp hmeasure).2, rfl⟩
  | sound pan duration description =>
      obtain ⟨-, -, rfl⟩ := apply_sound_eq_ok_iff.mp happly
      exact .inr ⟨duration, .inl hvalid.2, rfl⟩
  | backgroundStart pan description =>
      obtain ⟨-, -, rfl⟩ := apply_backgroundStart_eq_ok_iff.mp happly
      exact .inl rfl
  | backgroundStop description =>
      obtain ⟨track, -, hflush⟩ := apply_backgroundStop_eq_ok_iff.mp happly
      obtain ⟨placed, loops, rfl⟩ := exists_clips_of_flush hflush
      exact .inl rfl
  | wait duration =>
      obtain ⟨-, rfl, -⟩ := apply_wait_eq_ok_iff.mp happly
      exact .inr ⟨duration, .inr hvalid, rfl⟩

end Build

open Binary64

theorem isReading_zero : IsReading Scalar.zero := ⟨by decide, by decide⟩

theorem Scalar.value_nonneg {secs : Float} (h : IsLength secs ∨ IsPause secs) :
    secs.isFinite = true ∧ 0 ≤ value secs := by
  obtain ⟨hzero, hvalue⟩ := value_zero
  rcases h with hlength | ⟨hfinite, hlt⟩
  · obtain ⟨hfinite, hpos⟩ := isLength_iff_value_pos.mp hlength
    exact ⟨hfinite, hpos.le⟩
  · rw [lt_iff_value_lt hfinite hzero, hvalue] at hlt
    exact ⟨hfinite, not_lt.mp hlt⟩

/-- A span that is longer than the noise is longer than nothing. -/
theorem value_pos_of_millionth_lt {span : Float} (hspan : span.isFinite = true)
    (hlong : Scalar.millionth < span) : 0 < value span := by
  rw [lt_iff_value_lt value_millionth.1 hspan] at hlong
  exact millionth_pos.trans hlong

/-- Tiles are laid over a span that is worth playing: at least one whole copy, or else the rest,
which is all of the span. -/
theorem layTiles_ne_nil {loop span : Float} {copies : Nat} (hloop : loop.isFinite = true)
    (hspan : span.isFinite = true) (hlong : Scalar.millionth < span) :
    layTiles loop span copies ≠ [] := by
  cases copies with
  | succ copies => simp [layTiles]
  | zero =>
      have hcount : (Scalar.ofNat 0 : Float) = 0.0 := by decide
      obtain ⟨hcovered, hzero⟩ := zero_mul_value hloop
      obtain ⟨hrest, hvalue⟩ := sub_value_of_zero hspan
        (value_pos_of_millionth_lt hspan hlong).ne' hcovered hzero
      have hplayed : Scalar.millionth < span - Scalar.ofNat 0 * loop := by
        rw [hcount, lt_iff_value_lt value_millionth.1 hrest, hvalue,
          ← lt_iff_value_lt value_millionth.1 hspan]
        exact hlong
      simp [layTiles, hplayed]

theorem not_le_millionth {span : Float} (hspan : span.isFinite = true)
    (hlong : Scalar.millionth < span) : ¬ span ≤ Scalar.millionth := by
  rw [le_iff_value_le hspan value_millionth.1, not_le, ← lt_iff_value_lt value_millionth.1 hspan]
  exact hlong

/-- A finite span that is longer than the noise is not left without tiles. -/
theorem tile_ne_nil {loop span : Float} {tiles : List (Tile Float)} (hspan : span.isFinite = true)
    (hlong : Scalar.millionth < span) (h : tile loop span = .ok tiles) : tiles ≠ [] := by
  obtain ⟨hloop, ⟨hnoise, -⟩ | ⟨-, -, rfl⟩⟩ := tile_eq_ok_iff.mp h
  · rcases hnoise with hinfinite | hshort
    · have htrue : Scalar.isFinite span = true := hspan
      rw [hinfinite] at htrue
      cases htrue
    · exact absurd hshort (not_le_millionth hspan hlong)
  · exact layTiles_ne_nil hloop.1 hspan hlong

theorem tileFrom_ne_nil {loop start span : Float} {tiles : List (Tile Float)}
    (hspan : span.isFinite = true) (hlong : Scalar.millionth < span)
    (h : tileFrom loop start span = .ok tiles) : tiles ≠ [] := by
  obtain ⟨laid, hlaid, rfl⟩ := tileFrom_eq_ok_iff.mp h
  simpa using tile_ne_nil hspan hlong hlaid

namespace Build

variable {setup : Setup Float σ} {p q : Progress Float} {lines done more : List (ScriptLine Float)}
  {s t u v : Session Float σ}

/-- A command leaves a clock that is not negative or undefined, and does not turn it back. -/
theorem isReading_of_step {line : ScriptLine Float} (hvalid : line.command.IsValid)
    (hp : IsReading p.clock) (h : step setup p line s = .ok q t) :
    IsReading q.clock ∧ p.clock ≤ q.clock := by
  rcases clock_of_step hvalid h with heq | ⟨secs, hsecs, heq⟩
  · rw [heq]
    exact ⟨hp, hp.le_refl⟩
  · obtain ⟨hfinite, hnonneg⟩ := Scalar.value_nonneg hsecs
    rw [heq]
    exact ⟨hp.add hfinite hnonneg, hp.le_add hfinite hnonneg⟩

/-- Nor do several commands, by induction on them. -/
theorem isReading_of_steps (hvalid : ∀ line ∈ more, line.command.IsValid)
    (hp : IsReading p.clock) (h : more.foldlM (step setup) p s = .ok q t) :
    IsReading q.clock ∧ p.clock ≤ q.clock := by
  induction more generalizing p s with
  | nil =>
      cases h
      exact ⟨hp, hp.le_refl⟩
  | cons line rest ih =>
      rw [List.foldlM_cons] at h
      obtain ⟨p', u, hstep, hrest⟩ := Work.bind_eq_ok.mp h
      obtain ⟨hp', hle⟩ := isReading_of_step (hvalid line List.mem_cons_self) hp hstep
      obtain ⟨hq, hle'⟩ :=
        ih (fun other hother => hvalid other (List.mem_cons_of_mem _ hother)) hp' hrest
      exact ⟨hq, hp.le_trans hp' hq hle hle'⟩

/-- Of a build that comes to the end of its commands, each clock before is a reading, and finite if
the last one is. -/
theorem isReading_of_commands (hc : checkStructure (done ++ more) = .ok ())
    (hdone : commands setup done v = .ok p t) (h : commands setup (done ++ more) v = .ok q u) :
    IsReading p.clock ∧ IsReading q.clock ∧
      (q.clock.isFinite = true → p.clock.isFinite = true) := by
  have hvalid := isValid_of_checkStructure hc
  obtain ⟨hp, -⟩ := isReading_of_steps
    (fun line hline => hvalid line (List.mem_append_left _ hline)) isReading_zero hdone
  rw [commands_append, Work.bind_apply_of_ok hdone] at h
  obtain ⟨hq, hle⟩ := isReading_of_steps
    (fun line hline => hvalid line (List.mem_append_right _ hline)) hp h
  exact ⟨hp, hq, hp.isFinite_of_le hq hle⟩

/-- The end of a track is a moment of the clock. -/
theorem Ends.isReading {before : List (ScriptLine Float)} {start : ScriptLine Float}
    {description : String} {finish : Float} {placed : List (Segment Float)}
    (hends : Ends setup lines v before start description finish placed)
    (hc : checkStructure lines = .ok ()) (h : commands setup lines v = .ok q u) :
    IsReading finish ∧ (q.clock.isFinite = true → finish.isFinite = true) := by
  cases hends with
  | @stopped between rest stop p _ _ _ _ hlines hbetween hstop hcommands hstep hplaced =>
      have hsplit : lines = (before ++ start :: between) ++ stop :: rest := by
        rw [hlines, List.append_assoc, List.cons_append]
      rw [hsplit] at hc h
      obtain ⟨hreading, -, hfinite⟩ := isReading_of_commands hc hcommands h
      exact ⟨hreading, hfinite⟩
  | left hlines hafter hcommands hlive htrack hfront hleft hplaced =>
      rw [hcommands] at h
      cases h
      rw [← List.append_nil lines] at hc
      have hall := isReading_of_commands hc hcommands (by rwa [List.append_nil])
      exact ⟨hall.1, id⟩

/-- A track is given a clip if its span is finite and longer than the noise. -/
theorem Track.IsCovered.ne_nil {track : Track Float} {finish : Float}
    {placed : List (Segment Float)} (h : track.IsCovered finish placed)
    (hspan : (finish - track.start).isFinite = true)
    (hlong : Scalar.millionth < finish - track.start) : placed ≠ [] := by
  cases h with
  | noise hnoise => exact absurd hnoise (not_le_millionth hspan hlong)
  | tiled hnoise htiles => simpa [Track.clips] using tileFrom_ne_nil hspan hlong htiles

end Build

theorem Studio.timeline_of_parse {studio : Studio σ} {text : String}
    {lines : List (ScriptLine Float)} (h : (Script.parse text).toOption = some lines) :
    studio.timeline text = build studio.setup lines := by
  unfold Studio.timeline
  cases hparse : Script.parse text with
  | error failure =>
      rw [hparse] at h
      cases h
  | ok found =>
      rw [hparse] at h
      cases h
      rfl

/-- **Tracks are heard unless the clock runs over.** A script that is built ends with a clock that
is finite or has run over to infinity. Each of its tracks has an end, which is its first stop or the
end of the script, and the clips that are placed there; it has at least one if its span is finite
and longer than the noise, and all spans are finite if the clock has not run over. -/
theorem Studio.tracks_are_heard (studio : Studio σ) (text : String) (s t : Session Float σ)
    (timeline : Timeline Float) (report : Report)
    (h : studio.timeline text s = .ok (timeline, report) t) :
    ∃ lines v, Script.parse text = .ok lines ∧ Build.Opens studio.setup lines s v ∧
      (timeline.total.isFinite = true ∨ timeline.total = posInfinity) ∧
      ∀ before number pan description after,
        lines = before ++ ⟨number, .backgroundStart pan description⟩ :: after →
        ∃ p u finish placed, Build.commands studio.setup before v = .ok p u ∧
          Build.Ends studio.setup lines v before ⟨number, .backgroundStart pan description⟩
            description finish placed ∧
          placed <:+: timeline.segments ∧
          (∀ clip ∈ placed, clip.path = studio.setup.store.pathFor ⟨.sound, description⟩ ∧
            clip.pan = pan) ∧
          ((finish - p.clock).isFinite = true → 0.000001 < finish - p.clock → placed ≠ []) ∧
          (timeline.total.isFinite = true → (finish - p.clock).isFinite = true) := by
  unfold Studio.timeline at h
  cases hparse : Script.parse text with
  | error failure =>
      rw [hparse] at h
      cases h
  | ok lines =>
      rw [hparse] at h
      obtain ⟨hc, v, hopens, hconclude⟩ := build_eq_ok_iff.mp h
      obtain ⟨p, u, q, hcommands, hflush, hfinish⟩ := Build.conclude_eq_ok_iff.mp hconclude
      obtain ⟨rfl, -, -⟩ := Build.finish_eq_ok hfinish
      obtain ⟨hclock, -⟩ := Build.exists_segments_of_flushes hflush
      have htotal : q.timeline.total = p.clock := hclock
      have hfrom : ∀ {before rest p₀ u₀}, lines = before ++ rest →
          Build.commands studio.setup before v = .ok p₀ u₀ → IsReading p₀.clock ∧
            IsReading p.clock ∧ (p.clock.isFinite = true → p₀.clock.isFinite = true) :=
        fun hlines hbefore => Build.isReading_of_commands (hlines ▸ hc) hbefore (hlines ▸ hcommands)
      refine ⟨lines, v, rfl, hopens, ?_, ?_⟩
      · obtain ⟨-, hreading, -⟩ := hfrom (List.nil_append lines).symm rfl
        rw [htotal]
        cases hfinite : p.clock.isFinite with
        | true => exact .inl rfl
        | false => exact .inr (hreading.eq_posInfinity hfinite)
      · intro before number pan description after hlines
        obtain ⟨p₀, u₀, finish, placed, hbefore, hends, hcovered, hinfix⟩ :=
          Build.exists_ends hc hlines hcommands hflush
        refine ⟨p₀, u₀, finish, placed, hbefore, hends, hinfix, hcovered.path_and_pan,
          hcovered.ne_nil, fun hfinite => ?_⟩
        rw [htotal] at hfinite
        obtain ⟨hstart, -, hback⟩ := hfrom hlines hbefore
        obtain ⟨hend, hback'⟩ := hends.isReading hc hcommands
        exact hend.isFinite_sub hstart (hback' hfinite) (hback hfinite)

/-- A studio of steady collaborators that renders nothing. -/
def steadyStudio : Studio Unit where
  setup := steadySetup
  render _ _ disk _ _ := ⟨⟨.ok (), false, ()⟩, disk⟩

/-- It rains for three seconds. -/
def showerScript : List (ScriptLine Float) :=
  [⟨1, .backgroundStart 0 "rain"⟩, ⟨2, .wait 3⟩, ⟨3, .backgroundStop "rain"⟩]

/-- The clock of this script stays finite, and so does the span of the rain. -/
theorem Studio.tracks_are_heard_rain :
    ∃ timeline report t, steadyStudio.timeline "bgstart 0 rain\nwait 3\nbgstop rain" freshSession
        = .ok (timeline, report) t ∧ timeline.total = 3 ∧
      ∃ lines v p u finish placed, Build.commands steadySetup [] v = .ok p u ∧
        Build.Ends steadySetup lines v [] ⟨1, .backgroundStart 0 "rain"⟩ "rain" finish placed ∧
        placed <:+: timeline.segments ∧ (finish - p.clock).isFinite = true ∧
        (0.000001 < finish - p.clock → placed ≠ []) := by
  have hparse : (Script.parse "bgstart 0 rain\nwait 3\nbgstop rain").toOption
      = some showerScript := by decide +kernel
  have hanswer : ((build steadySetup showerScript).answer? freshSession).map (·.1.total)
      = some 3 := by decide +kernel
  have hthree : (3 : Float).isFinite = true := by decide +kernel
  obtain ⟨⟨timeline, report⟩, hsome, htotal⟩ := Option.map_eq_some_iff.mp hanswer
  obtain ⟨t, hbuild⟩ := Work.answer?_eq_some_iff.mp hsome
  have h : steadyStudio.timeline "bgstart 0 rain\nwait 3\nbgstop rain" freshSession
      = .ok (timeline, report) t := by
    rw [Studio.timeline_of_parse hparse]
    exact hbuild
  obtain ⟨lines, v, hlines, -, -, htracks⟩ :=
    Studio.tracks_are_heard steadyStudio _ freshSession t timeline report h
  rw [hlines] at hparse
  obtain ⟨p, u, finish, placed, hbefore, hends, hinfix, -, hheard, hspan⟩ :=
    htracks [] 1 0 "rain" _ (Option.some.inj hparse)
  have hfinite := hspan (htotal ▸ hthree)
  exact ⟨timeline, report, t, h, htotal, lines, v, p, u, finish, placed, hbefore, hends, hinfix,
    hfinite, hheard hfinite⟩

/-- Two pauses that are finite, but whose sum is not. -/
def overflowText : String := String.ofList
  ("bgstart 0 rain\nwait 1".toList ++ List.replicate 308 '0' ++ "\nwait 1".toList
    ++ List.replicate 308 '0' ++ "\nbgstop rain".toList)

/-- The commands of this text. -/
def overflowScript : List (ScriptLine Float) :=
  [⟨1, .backgroundStart 0 "rain"⟩, ⟨2, .wait 1e308⟩, ⟨3, .wait 1e308⟩, ⟨4, .backgroundStop "rain"⟩]

/-- The clock of a script runs over without a failure, and its only track is never heard. -/
theorem Studio.clock_may_run_over :
    ∃ t, steadyStudio.timeline overflowText freshSession
      = .ok (⟨posInfinity, []⟩, { commands := 4, backgroundTracks := 1 }) t := by
  have hparse : (Script.parse overflowText).toOption = some overflowScript := by
    unfold Script.parse overflowText
    rw [String.toList_ofList]
    decide +kernel
  have hanswer : (build steadySetup overflowScript).answer? freshSession
      = some (⟨posInfinity, []⟩, { commands := 4, backgroundTracks := 1 }) := by decide +kernel
  rw [Studio.timeline_of_parse hparse]
  exact Work.answer?_eq_some_iff.mp hanswer

end Soundstage
