import Soundstage.Proofs.Timeline.Alternation
import Soundstage.Proofs.Timeline.Overflow
import Soundstage.Proofs.Timeline.Workers

/-!
# A build in step with the structure of its script

The structure check keeps a set of descriptions and the build keeps a list of tracks; neither knows
of the other. Behind every command they agree: the tracks that play are those that are open there,
each once, and none of them starts later than the clock. So a stop finds its track, and what a build
reports can be counted in the script: its lines, its starts, and the starts that no stop belongs to.
-/

namespace Soundstage

variable {R σ : Type}

/-- Whether a line starts a background track. -/
def ScriptLine.startsTrack (line : ScriptLine R) : Bool :=
  match line.command with
  | .backgroundStart .. => true
  | _ => false

/-- Whether a line stops a background track. -/
def ScriptLine.stopsTrack (line : ScriptLine R) : Bool :=
  match line.command with
  | .backgroundStop _ => true
  | _ => false

namespace Build

section Counts

variable [Scalar R] {setup : Setup R σ} {p q : Progress R} {s t v : Session R σ}
  {line : ScriptLine R} {done more : List (ScriptLine R)}

theorem report_of_flush {track : Track R} {number : Nat}
    (h : flush setup p track number s = .ok q t) : q.report = p.report := by
  obtain ⟨placed, loops, rfl⟩ := exists_clips_of_flush h
  rfl

/-- A command counts itself, and a start counts its track. -/
theorem report_of_step (h : step setup p line s = .ok q t) :
    q.report = { p.report with
      commands := p.report.commands + 1
      backgroundTracks := p.report.backgroundTracks + if line.startsTrack then 1 else 0 } := by
  obtain ⟨p', u, -, happly, rfl⟩ := step_eq_ok_iff.mp h
  obtain ⟨number, command⟩ := line
  cases command with
  | voice pan phrase =>
      obtain ⟨u, secs, -, -, rfl⟩ := apply_voice_eq_ok_iff.mp happly
      rfl
  | sound pan duration description =>
      obtain ⟨-, -, rfl⟩ := apply_sound_eq_ok_iff.mp happly
      rfl
  | backgroundStart pan description =>
      obtain ⟨-, -, rfl⟩ := apply_backgroundStart_eq_ok_iff.mp happly
      rfl
  | backgroundStop description =>
      obtain ⟨track, -, hflush⟩ := apply_backgroundStop_eq_ok_iff.mp happly
      rw [report_of_flush hflush]
      rfl
  | wait duration =>
      obtain ⟨-, rfl, -⟩ := apply_wait_eq_ok_iff.mp happly
      rfl

/-- Behind some commands these have been counted, by induction on them from their end. -/
theorem report_of_commands (h : commands setup done v = .ok p t) :
    p.report = { commands := done.length
                 backgroundTracks := done.countP ScriptLine.startsTrack } := by
  induction done using List.reverseRecOn generalizing p t with
  | nil =>
      cases h
      rfl
  | append_singleton done line ih =>
      obtain ⟨p', u, hdone, hstep⟩ := commands_concat_eq_ok.mp h
      rw [report_of_step hstep, ih hdone, List.length_append, List.length_singleton,
        List.countP_append, List.countP_singleton]

/-- A track that is left is counted as one, by induction on these. -/
theorem report_of_flushes {tracks : List (Track R)}
    (h : tracks.foldlM (flushLeft setup) p s = .ok q t) :
    q.report = { p.report with
      implicitFlushes := p.report.implicitFlushes + tracks.length } := by
  induction tracks generalizing p s with
  | nil =>
      cases h
      rfl
  | cons track rest ih =>
      rw [List.foldlM_cons] at h
      obtain ⟨p', u, hfirst, hrest⟩ := Work.bind_eq_ok.mp h
      obtain ⟨placed, w, hflush, hreturn⟩ := Work.bind_eq_ok.mp hfirst
      cases hreturn
      rw [ih hrest, report_of_flush hflush, List.length_cons, Nat.add_assoc, Nat.add_comm 1]

/-- Every track that plays has been started, and every one that has been stopped does not play. -/
theorem countP_startsTrack (hc : checkStructure (done ++ more) = .ok ())
    (h : commands setup done v = .ok p t) :
    done.countP ScriptLine.startsTrack
      = done.countP ScriptLine.stopsTrack + p.live.length := by
  induction done using List.reverseRecOn generalizing p t more with
  | nil =>
      cases h
      rfl
  | append_singleton done line ih =>
      obtain ⟨p', u, hdone, hstep⟩ := commands_concat_eq_ok.mp h
      rw [List.append_assoc] at hc
      have hbefore := ih hc hdone
      rw [live_of_step hstep, List.countP_append, List.countP_append, List.countP_singleton,
        List.countP_singleton, hbefore]
      obtain ⟨number, command⟩ := line
      cases command with
      | backgroundStart pan description =>
          rw [liveAfter, List.length_append, List.length_singleton]
          exact Nat.add_assoc _ _ _
      | backgroundStop description =>
          obtain ⟨track, hfind, hdescription⟩ := exists_find?_live hc hdone
          have hmem := List.mem_of_find?_eq_some hfind
          have hlength : (p'.live.eraseP (·.description = description)).length
              = p'.live.length - 1 :=
            List.length_eraseP_of_mem hmem (by simpa using hdescription)
          have hpos := List.length_pos_of_mem hmem
          simp only [ScriptLine.startsTrack, ScriptLine.stopsTrack, liveAfter, hlength]
          simp only [Bool.false_eq_true, if_false, if_true]
          omega
      | voice pan phrase => rfl
      | sound pan duration description => rfl
      | wait duration => rfl

/-- What a build reports behind its end can be counted in the script. -/
theorem report_of_build {lines : List (ScriptLine R)} {timeline : Timeline R} {report : Report}
    (h : build setup lines s = .ok (timeline, report) t) :
    lines.countP ScriptLine.stopsTrack ≤ lines.countP ScriptLine.startsTrack ∧
      report = { commands := lines.length
                 segments := timeline.segments.length
                 backgroundTracks := lines.countP ScriptLine.startsTrack
                 implicitFlushes := lines.countP ScriptLine.startsTrack
                   - lines.countP ScriptLine.stopsTrack } := by
  obtain ⟨hc, v, -, hconclude⟩ := build_eq_ok_iff.mp h
  obtain ⟨p, u, q, hcommands, hflush, hfinish⟩ := conclude_eq_ok_iff.mp hconclude
  obtain ⟨rfl, -, rfl⟩ := finish_eq_ok hfinish
  have hwhole : checkStructure (lines ++ []) = .ok () := by rwa [List.append_nil]
  have hcount := countP_startsTrack hwhole hcommands
  have hreport : q.report
      = { p.report with implicitFlushes := p.report.implicitFlushes + p.live.length } :=
    report_of_flushes (p := { p with live := [] }) hflush
  rw [report_of_commands hcommands] at hreport
  constructor
  · exact Nat.le.intro hcount.symm
  · rw [hreport, hcount, Nat.add_sub_cancel_left]
    simp [Progress.timeline]

/-- The tracks that play behind some commands are those that are open there. -/
theorem accounts_live (hwell : IsWellStructured done) (h : commands setup done v = .ok p t) :
    Accounts (p.live.map (·.description)) done := by
  obtain ⟨playing, hplaying, haccounts⟩ := hwell.exists_accounts
  have hperm : playing.Perm (p.live.map (·.description)) := plays_of_commands hplaying h
  refine ⟨hperm.nodup_iff.mp haccounts.nodup, fun description => ?_⟩
  rw [← hperm.mem_iff]
  exact haccounts.mem_iff description

/-- So a stop that comes next ends a track that plays. -/
theorem exists_stopped {number : Nat} {description : String}
    (hwell : IsWellStructured (done ++ ⟨number, .backgroundStop description⟩ :: more))
    (h : commands setup done v = .ok p t) :
    ∃ track ∈ p.live, track.description = description ∧
      apply setup p ⟨number, .backgroundStop description⟩
        = flush setup (p.drop description) track number := by
  obtain ⟨track, hfind, hdescription⟩ :=
    exists_find?_live (checkStructure_eq_ok_iff_isWellStructured.mpr hwell) h
  refine ⟨track, List.mem_of_find?_eq_some hfind, hdescription, ?_⟩
  rw [apply_of_rechecked rfl, perform_backgroundStop_eq, hfind]

end Counts

open Binary64 in
/-- No track that plays starts later than the clock. -/
theorem start_le_clock {setup : Setup Float σ} {p : Progress Float} {t v : Session Float σ}
    {done : List (ScriptLine Float)} (hwell : IsWellStructured done)
    (h : commands setup done v = .ok p t) : ∀ track ∈ p.live, track.start ≤ p.clock := by
  intro track htrack
  have hc := checkStructure_eq_ok_iff_isWellStructured.mpr hwell
  rw [← List.append_nil done] at hc
  obtain ⟨before, after, hlines, -, -, q, w, hbefore, hstart⟩ :=
    isStarted_of_mem_live hc h track htrack
  rw [hlines] at h hwell
  obtain ⟨q', w', hbefore', hafter⟩ := exists_commands_of_append h
  rw [hbefore] at hbefore'
  cases hbefore'
  have hvalid := hwell.1
  obtain ⟨hreading, -⟩ := isReading_of_steps
    (fun line hline => hvalid line (List.mem_append_left _ hline)) isReading_zero hbefore
  obtain ⟨-, hle⟩ := isReading_of_steps
    (fun line hline => hvalid line (List.mem_append_right _ hline)) hreading hafter
  rw [← hstart]
  exact hle

end Build

/-- **The structure check is exact, comes before everything else, and agrees with the run.** It
accepts the scripts whose commands are valid and in which the starts and stops of each track
alternate, beginning with a start. Any other script has a first line that breaks this: the build
fails with the failure of this line, and has asked nobody and changed nothing. In a script that is
accepted, wherever the build comes to in its commands, the tracks that play are those that are open
there, each once, none of them starts later than the clock, and a stop that comes next ends one of
them. What the build reports can be counted in the script. -/
theorem build_in_step (setup : Setup Float σ) (lines : List (ScriptLine Float))
    (s : Session Float σ) :
    (checkStructure lines = .ok () ↔ IsWellStructured lines) ∧
      (¬ IsWellStructured lines → ∃ before line after failure,
        lines = before ++ line :: after ∧ IsWellStructured before ∧
          ¬ IsWellStructured (before ++ [line]) ∧ line.Breaks before failure ∧
          checkStructure lines = .error failure ∧ build setup lines s = .error failure s) ∧
      (IsWellStructured lines → ∀ done more v p t, lines = done ++ more →
        Build.commands setup done v = .ok p t →
        Accounts (p.live.map (·.description)) done ∧
          (∀ track ∈ p.live, track.start ≤ p.clock) ∧
          ∀ number description rest, more = ⟨number, .backgroundStop description⟩ :: rest →
            ∃ track ∈ p.live, track.description = description ∧
              Build.apply setup p ⟨number, .backgroundStop description⟩
                = Build.flush setup (p.drop description) track number) ∧
      ∀ timeline report t, build setup lines s = .ok (timeline, report) t →
        lines.countP ScriptLine.stopsTrack ≤ lines.countP ScriptLine.startsTrack ∧
          report = { commands := lines.length
                     segments := timeline.segments.length
                     backgroundTracks := lines.countP ScriptLine.startsTrack
                     implicitFlushes := lines.countP ScriptLine.startsTrack
                       - lines.countP ScriptLine.stopsTrack } := by
  refine ⟨checkStructure_eq_ok_iff_isWellStructured, exists_breaks setup s, ?_, ?_⟩
  · rintro hwell done more v p t rfl hcommands
    refine ⟨Build.accounts_live hwell.of_append hcommands,
      Build.start_le_clock hwell.of_append hcommands, ?_⟩
    rintro number description rest rfl
    exact Build.exists_stopped hwell hcommands
  · intro timeline report t hbuild
    exact Build.report_of_build hbuild

/-- It rains, and it shall rain again. -/
def floodScript : List (ScriptLine Float) :=
  [⟨1, .backgroundStart 0 "rain"⟩, ⟨2, .wait 3⟩, ⟨3, .backgroundStart 0 "rain"⟩]

/-- The rain of the one script is stopped by its last line, and the other script is refused with its
third line, of which workers know nothing either. -/
theorem build_in_step_rain_and_flood :
    (∃ timeline t, build steadySetup rainScript freshSession
        = .ok (timeline, ⟨4, timeline.segments.length, 1, 0⟩) t) ∧
      (∃ p t, Build.commands steadySetup (rainScript.take 3) freshSession = .ok p t ∧
        ∃ track ∈ p.live, track.description = "rain" ∧ track.start ≤ p.clock) ∧
      ∃ before line after failure, floodScript = before ++ line :: after ∧
        line.Breaks before failure ∧ failure.line? = some 3 ∧
        build twoWorkers floodScript freshSession = .error failure freshSession := by
  obtain ⟨hexact, -, hruns, hreports⟩ := build_in_step steadySetup rainScript freshSession
  have hanswer : ((build steadySetup rainScript).answer? freshSession).isSome = true := by
    decide +kernel
  obtain ⟨⟨timeline, report⟩, t, hbuild⟩ := Work.isSome_answer?_iff.mp hanswer
  obtain ⟨p, u, hcommands⟩ : ∃ p u,
      Build.commands steadySetup (rainScript.take 3) freshSession = .ok p u := by
    obtain ⟨-, v, hopens, hconclude⟩ := build_eq_ok_iff.mp hbuild
    obtain ⟨q, w, -, hall, -⟩ := Build.conclude_eq_ok_iff.mp hconclude
    rw [← List.take_append_drop 3 rainScript] at hall
    obtain ⟨p, u, hfirst, -⟩ := Build.exists_commands_of_append hall
    cases hopens with
    | alone => exact ⟨p, u, hfirst⟩
    | ahead hw => exact absurd hw (Nat.lt_irrefl 1)
  have hwell : IsWellStructured rainScript := hexact.mp (build_eq_ok hbuild).1
  obtain ⟨-, hstart, hstop⟩ := hruns hwell _ _ _ p u (List.take_append_drop 3 rainScript).symm
    hcommands
  obtain ⟨track, htrack, hdescription, -⟩ := hstop 4 "rain" [] rfl
  refine ⟨⟨timeline, t, ?_⟩,
    ⟨p, u, hcommands, track, htrack, hdescription, hstart track htrack⟩, ?_⟩
  · rw [hbuild, (hreports timeline report t hbuild).2]
    rfl
  · obtain ⟨hexact', hbreaks, -, -⟩ := build_in_step twoWorkers floodScript freshSession
    have hcheck : (checkStructure floodScript).toOption = none := by decide +kernel
    have hnot : ¬ IsWellStructured floodScript := by
      intro hflood
      rw [hexact'.mpr hflood] at hcheck
      cases hcheck
    obtain ⟨before, line, after, failure, hlines, -, -, hline, hfailure, hrefused⟩ := hbreaks hnot
    refine ⟨before, line, after, failure, hlines, hline, ?_, hrefused⟩
    have hnumber : (match checkStructure floodScript with
        | .ok _ => none
        | .error cause => cause.line?) = some 3 := by decide +kernel
    rw [hfailure] at hnumber
    exact hnumber

end Soundstage
