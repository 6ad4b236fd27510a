import Soundstage.Proofs.Timeline.Cover
import Soundstage.Proofs.Timeline.Hindrance
import Soundstage.Proofs.Timeline.Origin
import Soundstage.Proofs.Timeline.Rerun

/-!
# Clips lie within the program

A build ends with a check of its timeline. With exact fractions the check has nothing to refuse:
where all commands have been run and all tracks have been placed, each clip starts at or after zero,
can be played, and ends with the program or later by no more than the noise. `Build.InBounds` says
this of a build between two commands, by the clock. It is kept by every command, because the clock
is never turned back, and by every track that is placed, because whole copies go beyond their span
by less than the noise.
-/

namespace Soundstage

variable {σ : Type}

section Clips

variable {loop span secs total later : ℚ} {tiles : List (Tile ℚ)} {tile : Tile ℚ} {n : ℕ}
  {clip : Segment ℚ} {track : Build.Track ℚ}

theorem Segment.within_iff : clip.Within total ↔
    0 ≤ clip.start ∧ 0 < clip.duration ∧ clip.finish ≤ total + noise := by
  unfold Within
  rw [isPause_iff, isLength_iff, millionth_eq_noise]
  exact and_congr_right fun _ => and_congr_right fun _ => not_lt

/-- A clip that lies within a program lies within every longer one. -/
theorem Segment.Within.mono (h : clip.Within total) (hle : total ≤ later) : clip.Within later := by
  obtain ⟨hstart, hlength, hfinish⟩ := within_iff.mp h
  exact within_iff.mpr ⟨hstart, hlength, by linarith⟩

/-- Copies that fit a span begin within it and end at most the noise behind it. -/
theorem CopiesFit.bounds (h : CopiesFit loop span n) (hloop : 0 < loop)
    (htile : tile ∈ layTiles loop span n) :
    0 ≤ tile.offset ∧ 0 < tile.duration ∧ tile.offset + tile.duration ≤ span + noise := by
  have hnoise := noise_pos
  have hcopies : n * loop ≤ span + noise := by cases h <;> linarith
  rcases mem_layTiles.mp htile with ⟨i, hi, rfl⟩ | ⟨hrest, rfl⟩
  · have hi' : (i : ℚ) + 1 ≤ n := by exact_mod_cast hi
    have hend : ((i : ℚ) + 1) * loop ≤ n * loop := by gcongr
    refine ⟨mul_nonneg (Nat.cast_nonneg i) hloop.le, hloop, ?_⟩
    show (i : ℚ) * loop + loop ≤ span + noise
    linarith
  · rw [millionth_eq_noise] at hrest
    refine ⟨mul_nonneg (Nat.cast_nonneg n) hloop.le, hnoise.trans hrest, ?_⟩
    show (n : ℚ) * loop + (span - n * loop) ≤ span + noise
    linarith

theorem bounds_of_mem_tiles (h : Soundstage.tile loop span = .ok tiles) (htile : tile ∈ tiles) :
    0 ≤ tile.offset ∧ 0 < tile.duration ∧ tile.offset + tile.duration ≤ span + noise := by
  obtain ⟨hloop, ⟨-, rfl⟩ | ⟨hworth, -, rfl⟩⟩ := tile_eq_ok_iff.mp h
  · cases htile
  · rw [millionth_eq_noise, not_or] at hworth
    have hlong : noise < span := not_le.mp hworth.2
    have hpos : 0 < loop := isLength_iff.mp hloop
    exact (fits_wholeCopies hpos (noise_pos.trans hlong).le).bounds hpos htile

/-- The clips of a track lie within the program up to the clock by which they are placed. -/
theorem within_of_tileFrom {clock : ℚ} (hstart : 0 ≤ track.start)
    (h : tileFrom loop track.start (clock - track.start) = .ok tiles) :
    ∀ clip ∈ track.clips tiles, clip.Within clock := by
  intro clip hclip
  obtain ⟨laid, hlaid, rfl⟩ := tileFrom_eq_ok_iff.mp h
  obtain ⟨placed, hplaced, rfl⟩ := List.mem_map.mp hclip
  obtain ⟨tile, htile, rfl⟩ := List.mem_map.mp hplaced
  obtain ⟨hoffset, hlength, hfinish⟩ := bounds_of_mem_tiles hlaid htile
  refine Segment.within_iff.mpr ⟨add_nonneg hstart hoffset, hlength, ?_⟩
  show track.start + tile.offset + tile.duration ≤ clock + noise
  linarith

end Clips

namespace Build

variable {setup : Setup ℚ σ} {lines : List (ScriptLine ℚ)} {line : ScriptLine ℚ}
  {p q : Progress ℚ} {track : Track ℚ} {number : ℕ} {secs : ℚ} {s t u v : Session ℚ σ}

/-- All clips lie within the program up to the clock, and all tracks have been started in it. -/
structure InBounds (p : Progress ℚ) : Prop where
  clock : 0 ≤ p.clock
  started : ∀ track ∈ p.live, 0 ≤ track.start
  within : ∀ clip ∈ p.segments.toList, clip.Within p.clock

theorem inBounds_zero : InBounds { clock := Scalar.zero } where
  clock := le_rfl
  started := nofun
  within := nofun

/-- Time passes. -/
theorem InBounds.wait (h : InBounds p) (hsecs : 0 ≤ secs) :
    InBounds { p with clock := p.clock + secs } := by
  have hle : p.clock ≤ p.clock + secs := le_add_of_nonneg_right hsecs
  exact {
    clock := h.clock.trans hle
    started := h.started
    within := fun clip hclip => (h.within clip hclip).mono hle }

/-- A clip that is played ends by the clock behind it. -/
theorem InBounds.play (h : InBounds p) (hsecs : 0 < secs) (path : String) (pan : ℚ) :
    InBounds (p.play path secs pan) := by
  have hwait := h.wait hsecs.le
  refine { clock := hwait.clock, started := hwait.started, within := fun clip hclip => ?_ }
  rw [Progress.play, Array.toList_push] at hclip
  rcases List.mem_append.mp hclip with hold | hnew
  · exact hwait.within clip hold
  · rw [List.mem_singleton.mp hnew]
    exact Segment.within_iff.mpr ⟨h.clock, hsecs, le_add_of_nonneg_right noise_pos.le⟩

/-- A track that is placed by the clock ends by it, up to the noise. -/
theorem InBounds.flush (h : InBounds p) (hstart : 0 ≤ track.start)
    (hflush : flush setup p track number s = .ok q t) : InBounds q := by
  rcases flush_eq_ok_iff.mp hflush with ⟨-, rfl, -⟩ | ⟨-, loop, p', tiles, hloop, htiles, rfl⟩
  · exact h
  obtain ⟨hclock, hlive⟩ : p'.clock = p.clock ∧ p'.live = p.live := by
    rcases loopLength_eq_ok_iff.mp hloop with ⟨-, rfl, -⟩ | ⟨-, -, rfl⟩ <;> exact ⟨rfl, rfl⟩
  refine {
    clock := hclock ▸ h.clock
    started := hlive ▸ h.started
    within := fun clip hclip => ?_ }
  rw [Array.toList_appendList] at hclip
  show clip.Within p'.clock
  rw [hclock]
  rcases List.mem_append.mp hclip with hold | hnew
  · exact h.within clip hold
  · exact within_of_tileFrom hstart htiles clip hnew

/-- Each command of a checked script keeps the bounds. -/
theorem InBounds.step (h : InBounds p) (hvalid : line.command.IsValid)
    (hstep : step setup p line s = .ok q t) : InBounds q := by
  obtain ⟨p', u, -, happly, rfl⟩ := step_eq_ok_iff.mp hstep
  suffices hp' : InBounds p' from ⟨hp'.clock, hp'.started, hp'.within⟩
  obtain ⟨number, command⟩ := line
  cases command with
  | voice pan phrase =>
      obtain ⟨v, secs, -, hmeasure, rfl⟩ := apply_voice_eq_ok_iff.mp happly
      exact h.play (isLength_iff.mp (measure_eq_ok_iff.mp hmeasure).2) _ _
  | sound pan duration description =>
      obtain ⟨-, -, rfl⟩ := apply_sound_eq_ok_iff.mp happly
      exact h.play (isLength_iff.mp hvalid.2) _ _
  | backgroundStart pan description =>
      obtain ⟨-, -, rfl⟩ := apply_backgroundStart_eq_ok_iff.mp happly
      refine { clock := h.clock, started := fun track htrack => ?_, within := h.within }
      rcases List.mem_append.mp htrack with hold | hnew
      · exact h.started track hold
      · rw [List.mem_singleton.mp hnew]
        exact h.clock
  | backgroundStop description =>
      obtain ⟨track, hfound, hflush⟩ := apply_backgroundStop_eq_ok_iff.mp happly
      have hdrop : InBounds (p.drop description) :=
        { h with started := fun other hother => h.started other (List.mem_of_mem_eraseP hother) }
      exact hdrop.flush (h.started track (List.mem_of_find?_eq_some hfound)) hflush
  | wait duration =>
      obtain ⟨-, rfl, -⟩ := apply_wait_eq_ok_iff.mp happly
      exact h.wait (isPause_iff.mp hvalid)

/-- So does a track that the end of the script stops. -/
theorem InBounds.flushLeft (h : InBounds p) (hstart : 0 ≤ track.start)
    (hleft : flushLeft setup p track s = .ok q t) : InBounds q := by
  obtain ⟨p', hflush, hq⟩ := flushLeft_eq_ok hleft
  obtain ⟨hclock, hstarted, hwithin⟩ := h.flush hstart hflush
  rw [hq]
  exact ⟨hclock, hstarted, hwithin⟩

/-- A run of a checked script ends within its bounds. -/
theorem inBounds_of_run (hc : checkStructure lines = .ok ()) (h : run setup lines u = .ok p t) :
    InBounds p := by
  obtain ⟨p', v, hcommands, hflush⟩ := Work.bind_eq_ok.mp h
  have hp' : InBounds p' := Work.foldlM_keeps
    (fun line hline _ _ _ _ hb hstep => hb.step (isValid_of_checkStructure hc line hline) hstep)
    inBounds_zero hcommands
  have hbegin : InBounds { p' with live := [] } :=
    { clock := hp'.clock, started := nofun, within := hp'.within }
  exact Work.foldlM_keeps
    (fun track htrack _ _ _ _ hb hleft => hb.flushLeft (hp'.started track htrack) hleft)
    hbegin hflush

/-- The check of a timeline accepts what is within the bounds. -/
theorem InBounds.check (h : InBounds p) : p.timeline.check = .ok () :=
  checkSegments_eq_ok_iff.mpr h.within

end Build

namespace Build

variable {R σ : Type} [Scalar R] {setup : Setup R σ} {lines : List (ScriptLine R)}
  {s : Session R σ}

/-- All calls of a build succeed: generators and the prober answer, and each loop covers its
span. -/
structure Served (setup : Setup R σ) (lines : List (ScriptLine R)) (s : Session R σ) : Prop where
  generated : ∀ r u disk, Asked setup lines s r u → Generates setup r u disk →
    ∃ content, Build.generated setup r u = .ok content
  measured : ∀ path u, Measures setup lines s path u →
    ∃ secs v, Work.probe setup.collaborators path u = .ok secs v
  tiled : ∀ p track u, Places setup lines s p track u →
    ¬ p.clock - track.start ≤ Scalar.millionth → ∀ number secs q v,
      loopLength setup p track.path number u = .ok (secs, q) v →
        ∃ tiles, tileFrom secs track.start (p.clock - track.start) = .ok tiles

/-- What generators give can be stored: it is at least one byte, and the disk takes the folder, the
lock and the file of its asset. -/
structure Stored (setup : Setup R σ) (lines : List (ScriptLine R)) (s : Session R σ) : Prop where
  filled : ∀ r u disk content, Asked setup lines s r u → Generates setup r u disk →
    Build.generated setup r u = .ok content → content.isEmpty = false
  reserved : ∀ r u, Asked setup lines s r u →
    u.shelf.disk.isFile (setup.store.pathFor r.key) = false →
      ∃ disk, setup.store.reserve (setup.store.pathFor r.key) u.shelf.disk
        = ((.ok (), disk) : Except (Failure R) Unit × Disk)
  kept : ∀ r u disk content, Asked setup lines s r u → Generates setup r u disk →
    Build.generated setup r u = .ok content →
      (setup.store.writeWhole (setup.store.pathFor r.key) content { u.shelf with disk := disk } :
        Except (Failure R) Unit × Shelf).1 = .ok ()

/-- Nothing hinders a build whose calls succeed, if measured files can be played and the timeline
passes its check. -/
theorem Served.smooth (h : Served setup lines s) (hstored : Stored setup lines s)
    (hc : checkStructure lines = .ok ()) (hlengths : setup.Measures Scalar.IsLength)
    (hcheck : ∀ u p v, run setup lines u = .ok p v → p.timeline.check = .ok ()) :
    Smooth setup lines s where
  structured := hc
  generated := h.generated
  measured := h.measured
  tiled := h.tiled
  validated u p v _ := hcheck u p v
  filled := hstored.filled
  playable _ _ _ _ _ := measures_of_probe hlengths
  reserved := hstored.reserved
  kept := hstored.kept

theorem Smooth.served (h : Smooth setup lines s) : Served setup lines s :=
  ⟨h.generated, h.measured, h.tiled⟩

theorem Smooth.stored (h : Smooth setup lines s) : Stored setup lines s :=
  ⟨h.filled, h.reserved, h.kept⟩

end Build

/-- **Built timelines pass their check.** With exact fractions, the check at the end of a build
accepts whatever the commands of a checked script have made. Hence a build succeeds if all of its
calls do, what its generators give can be stored, every measured length is positive and nobody has
asked it to give up by its end. -/
theorem built_timelines_pass (setup : Setup ℚ σ) (hlengths : setup.Measures (0 < ·))
    (lines : List (ScriptLine ℚ)) (hc : checkStructure lines = .ok ()) (s : Session ℚ σ) :
    (∀ u p t, Build.run setup lines u = .ok p t → p.timeline.check = .ok ()) ∧
    (Build.Served setup lines s → Build.Stored setup lines s →
      ((build setup lines).behind s).surroundings.cancelled = false →
        ∃ timeline report t, build setup lines s = .ok (timeline, report) t ∧
          timeline.check = .ok ()) := by
  have hpass : ∀ u p t, Build.run setup lines u = .ok p t → p.timeline.check = .ok () :=
    fun u p t hrun => (Build.inBounds_of_run hc hrun).check
  refine ⟨hpass, fun hserved hstored hcalm => ?_⟩
  have hplayable : setup.Measures Scalar.IsLength :=
    fun path disk cancelled state secs h =>
      isLength_iff.mpr (hlengths path disk cancelled state _ h)
  have hsmooth := hserved.smooth hstored hc hplayable hpass
  cases hbuild : build setup lines s with
  | ok result t =>
      obtain ⟨timeline, report⟩ := result
      obtain ⟨-, u, -, hconclude⟩ := build_eq_ok_iff.mp hbuild
      obtain ⟨p, -, rfl, hcheck, -⟩ := Build.conclude_eq_ok hconclude
      exact ⟨_, report, t, rfl, hcheck⟩
  | error failure t =>
      obtain ⟨-, hgivenUp⟩ := hsmooth.isCancelled hbuild
      rw [Work.behind_of_error hbuild, hgivenUp] at hcalm
      cases hcalm

/-- One worker. Every generator gives the same bytes, and every file has the same length. -/
def exactSetup (content : ByteArray) (length : ℚ) : Setup ℚ Unit where
  store := ⟨"cache", "opus", 7⟩
  collaborators := {
    speech := fun _ _ _ => ⟨.ok content, false, ()⟩
    sound := fun _ _ _ _ => ⟨.ok content, false, ()⟩
    probe := fun _ _ _ _ => ⟨.ok length, false, ()⟩
    meanwhile := fun _ => (false, ()) }

theorem measures_exactSetup (content : ByteArray) {length : ℚ} (h : 0 < length) :
    (exactSetup content length).Measures (0 < ·) := by
  intro path disk cancelled state secs hprobe
  cases hprobe
  exact h

/-- Nobody has asked for anything yet. -/
def exactSession (disk : Disk) : Session ℚ Unit := ⟨{ disk := disk }, ⟨false, [], ()⟩⟩

/-- It rains for a second. -/
def shortRain : List (ScriptLine ℚ) :=
  [⟨1, .backgroundStart 0 "rain"⟩, ⟨2, .wait 1⟩, ⟨3, .backgroundStop "rain"⟩]

/-- Three copies of a loop go beyond the second that it rains by three tenths of a millionth, and
the timeline passes its check. -/
theorem built_timelines_pass_rain :
    ∃ timeline report t, build (exactSetup ⟨#[1]⟩ (3333334 / 10000000)) shortRain (exactSession {})
        = .ok (timeline, report) t ∧ timeline.check = .ok () ∧
      timeline.total = 1 ∧ timeline.segments.map (·.finish)
        = [3333334 / 10000000, 6666668 / 10000000, 10000002 / 10000000] := by
  have hanswer : ((build (exactSetup ⟨#[1]⟩ (3333334 / 10000000)) shortRain).answer?
      (exactSession {})).map (fun result => (result.1.total, result.1.segments.map (·.finish)))
      = some (1, [3333334 / 10000000, 6666668 / 10000000, 10000002 / 10000000]) := by
    decide +kernel
  obtain ⟨result, hresult, hvalues⟩ := Option.map_eq_some_iff.mp hanswer
  obtain ⟨t, hbuild⟩ := Work.answer?_eq_some_iff.mp hresult
  obtain ⟨htotal, hfinish⟩ := Prod.ext_iff.mp hvalues
  have hsmooth := Build.smooth_of_build (Nat.lt_irrefl 1) hbuild
  have hcalm : ((build (exactSetup ⟨#[1]⟩ (3333334 / 10000000)) shortRain).behind
      (exactSession {})).surroundings.cancelled = false := by decide +kernel
  obtain ⟨-, hpass⟩ := built_timelines_pass (exactSetup ⟨#[1]⟩ (3333334 / 10000000))
    (measures_exactSetup _ (by norm_num)) shortRain rfl (exactSession {})
  obtain ⟨timeline, report, u, hbuild', hcheck⟩ := hpass hsmooth.served hsmooth.stored hcalm
  rw [hbuild] at hbuild'
  cases hbuild'
  exact ⟨timeline, report, t, hbuild, hcheck, htotal, hfinish⟩

/-- The calls of a build succeed and nobody gives it up, but it fails. -/
def Build.FailsServed (setup : Setup ℚ Unit) (lines : List (ScriptLine ℚ))
    (s : Session ℚ Unit) : Prop :=
  checkStructure lines = .ok () ∧ setup.Measures (0 < ·) ∧ Served setup lines s ∧
    ((build setup lines).behind s).surroundings.cancelled = false ∧
    ∃ failure t, build setup lines s = .error failure t

/-- Somebody speaks. -/
def shortGreeting : List (ScriptLine ℚ) := [⟨1, .voice 0 "Hello"⟩]

theorem Build.failsServed_of_greeting {content : ByteArray} {disk : Disk}
    (hstops : ((commands (exactSetup content 1) shortGreeting).failure? (exactSession disk)).isSome
        = true ∧
      ((commands (exactSetup content 1) shortGreeting).behind
        (exactSession disk)).surroundings.cancelled = false) :
    FailsServed (exactSetup content 1) shortGreeting (exactSession disk) := by
  obtain ⟨failure, t, hcommands⟩ := Work.isSome_failure?_iff.mp hstops.1
  have hw : ¬ 1 < (exactSetup content 1).workers := Nat.lt_irrefl 1
  have hnone : ∀ line ∈ shortGreeting, ∀ description, Clips.isStop description line = false := by
    intro line hline description
    rw [List.mem_singleton.mp hline]
    rfl
  have hserved : Served (exactSetup content 1) shortGreeting (exactSession disk) := {
    generated := by
      rintro ⟨⟨role, text⟩, hint, line⟩ u disk - -
      cases role with
      | voice => exact ⟨content, rfl⟩
      | sound => exact ⟨content, rfl⟩
    measured := fun _ _ _ => ⟨_, _, rfl⟩
    tiled := fun p track u h => absurd h (not_places hw hnone hcommands) }
  have hrun : run (exactSetup content 1) shortGreeting (exactSession disk) = .error failure t :=
    Work.bind_apply_of_error hcommands
  have hbuild : build (exactSetup content 1) shortGreeting (exactSession disk)
      = .error failure t :=
    (build_of_one_worker rfl hw).trans (Work.bind_apply_of_error hrun)
  refine ⟨rfl, measures_exactSetup content one_pos, hserved, ?_, failure, t, hbuild⟩
  rw [Work.behind_of_error hbuild, ← Work.behind_of_error hcommands]
  exact hstops.2

/-- It is not enough that all calls succeed: what a generator gives has to be stored. Bytes that are
none are refused, and bytes that cannot be moved to their place are lost. -/
theorem Build.not_built_by_answers :
    FailsServed (exactSetup .empty 1) shortGreeting (exactSession {}) ∧
    FailsServed (exactSetup ⟨#[1]⟩ 1) shortGreeting (exactSession blockedDisk) :=
  ⟨failsServed_of_greeting (by decide +kernel), failsServed_of_greeting (by decide +kernel)⟩

end Soundstage
