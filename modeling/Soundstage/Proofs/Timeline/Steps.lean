import Soundstage.Proofs.Timeline.Placement

/-!
# What one command can do

Each command is inverted once, with all that is known where it answers: which calls it has made and
what it has done to the clock, the clips and the tracks. Every law about the commands of a build is
a case analysis on these, so that none of them opens a command again.
-/

namespace Soundstage

variable {R σ : Type}

namespace Build

variable [Scalar R] {setup : Setup R σ} {p q : Progress R} {s t : Session R σ} {path : String}
  {number : Nat} {secs : R} {track : Track R}

theorem measure_eq_ok_iff : measure setup path number s = .ok secs t ↔
    Work.probe setup.collaborators path s = .ok secs t ∧ Scalar.IsLength secs := by
  unfold measure
  rw [Work.bind_eq_ok]
  constructor
  · rintro ⟨found, u, hprobe, h⟩
    rw [Work.atLine_eq_ok] at hprobe
    by_cases hl : Scalar.IsLength found
    · rw [if_pos hl] at h
      cases h
      exact ⟨hprobe, hl⟩
    · rw [if_neg hl] at h
      cases h
  · rintro ⟨hprobe, hl⟩
    refine ⟨secs, t, Work.atLine_eq_ok.mpr hprobe, ?_⟩
    rw [if_pos hl]
    rfl

/-- A loop is measured unless its length is remembered. -/
theorem loopLength_eq_ok_iff : loopLength setup p path number s = .ok (secs, q) t ↔
    (p.loops.lookup path = some secs ∧ q = p ∧ t = s) ∨
      (p.loops.lookup path = none ∧ measure setup path number s = .ok secs t ∧
        q = { p with loops := (path, secs) :: p.loops }) := by
  unfold loopLength
  cases hk : p.loops.lookup path with
  | some known =>
      simp only [reduceCtorEq, false_and, or_false, Option.some.injEq]
      constructor
      · intro h
        cases h
        exact ⟨rfl, rfl, rfl⟩
      · rintro ⟨rfl, rfl, rfl⟩
        rfl
  | none =>
      simp only [reduceCtorEq, false_and, false_or, true_and]
      rw [Work.bind_eq_ok]
      constructor
      · rintro ⟨found, u, hmeasure, h⟩
        cases h
        exact ⟨hmeasure, rfl⟩
      · rintro ⟨hmeasure, rfl⟩
        exact ⟨secs, t, hmeasure, rfl⟩

/-- The clips of a track, given by their places on the clock. -/
def Track.clips (track : Track R) (tiles : List (Tile R)) : List (Segment R) :=
  tiles.map fun tile => ⟨track.path, tile.offset, tile.duration, track.pan⟩

/-- A track is placed unless its span is noise. -/
theorem flush_eq_ok_iff : flush setup p track number s = .ok q t ↔
    (p.clock - track.start ≤ Scalar.millionth ∧ q = p ∧ t = s) ∨
      (¬ p.clock - track.start ≤ Scalar.millionth ∧ ∃ secs p' tiles,
        loopLength setup p track.path number s = .ok (secs, p') t ∧
          tileFrom secs track.start (p.clock - track.start) = .ok tiles ∧
          q = { p' with segments := p.segments ++ track.clips tiles }) := by
  unfold flush
  by_cases hspan : p.clock - track.start ≤ Scalar.millionth
  · simp only [hspan, if_true, not_true, false_and, or_false, true_and]
    constructor
    · intro h
      cases h
      exact ⟨rfl, rfl⟩
    · rintro ⟨rfl, rfl⟩
      rfl
  · simp only [hspan, if_false, not_false_iff, true_and, false_and, false_or]
    rw [Work.bind_eq_ok]
    constructor
    · rintro ⟨⟨secs, p'⟩, u, hloop, h⟩
      cases htile : tileFrom secs track.start (p.clock - track.start) with
      | error failure =>
          simp only [htile] at h
          cases h
      | ok tiles =>
          simp only [htile] at h
          cases h
          refine ⟨secs, p', tiles, hloop, htile, ?_⟩
          rcases loopLength_eq_ok_iff.mp hloop with ⟨-, rfl, -⟩ | ⟨-, -, rfl⟩ <;> rfl
    · rintro ⟨secs, p', tiles, hloop, htile, rfl⟩
      refine ⟨(secs, p'), t, hloop, ?_⟩
      simp only [htile]
      rcases loopLength_eq_ok_iff.mp hloop with ⟨-, rfl, -⟩ | ⟨-, -, rfl⟩ <;> rfl

/-- Placing a track adds clips, and may remember the length of a loop. -/
theorem exists_clips_of_flush (h : flush setup p track number s = .ok q t) :
    ∃ (placed : List (Segment R)) (loops : List (String × R)),
      q = { p with segments := p.segments ++ placed, loops := loops } := by
  rcases flush_eq_ok_iff.mp h with ⟨-, rfl, -⟩ | ⟨-, secs, p', tiles, hloop, -, rfl⟩
  · exact ⟨[], q.loops, by simp⟩
  · refine ⟨track.clips tiles, p'.loops, ?_⟩
    rcases loopLength_eq_ok_iff.mp hloop with ⟨-, rfl, -⟩ | ⟨-, -, rfl⟩ <;> rfl

theorem recheck_sound_eq_ok_iff {pan duration : R} {description : String} :
    p.recheck ⟨number, .sound pan duration description⟩ = .ok () ↔ Scalar.IsLength duration := by
  unfold Progress.recheck
  by_cases hl : Scalar.IsLength duration <;> simp [hl]

theorem recheck_backgroundStart_eq_ok_iff {pan : R} {description : String} :
    p.recheck ⟨number, .backgroundStart pan description⟩ = .ok () ↔
      description ∉ p.live.map (·.description) := by
  unfold Progress.recheck
  by_cases hplays : description ∈ p.live.map (·.description)
  · have hany : p.live.any (·.description = description) = true := by simpa using hplays
    simp [hany, hplays]
  · have hany : ¬ p.live.any (·.description = description) = true := by simpa using hplays
    simp [hany, hplays]

theorem recheck_wait_eq_ok_iff {duration : R} :
    p.recheck ⟨number, .wait duration⟩ = .ok () ↔ Scalar.IsPause duration := by
  unfold Progress.recheck
  by_cases hpause : Scalar.IsPause duration <;> simp [hpause]

theorem apply_voice_eq_ok_iff {pan : R} {phrase : String} :
    apply setup p ⟨number, .voice pan phrase⟩ s = .ok q t ↔ ∃ u secs,
      materialize setup ⟨⟨.voice, phrase⟩, none, number⟩ s
          = .ok (setup.store.pathFor ⟨.voice, phrase⟩) u ∧
        measure setup (setup.store.pathFor ⟨.voice, phrase⟩) number u = .ok secs t ∧
        q = p.play (setup.store.pathFor ⟨.voice, phrase⟩) secs pan := by
  constructor
  · intro h
    obtain ⟨path, u, hpath, h⟩ := Work.bind_eq_ok.mp h
    obtain ⟨secs, v, hsecs, h⟩ := Work.bind_eq_ok.mp h
    cases h
    obtain rfl := materialize_eq_ok hpath
    exact ⟨u, secs, hpath, hsecs, rfl⟩
  · rintro ⟨u, secs, hpath, hsecs, rfl⟩
    exact Work.bind_eq_ok.mpr ⟨_, u, hpath, Work.bind_eq_ok.mpr ⟨secs, t, hsecs, rfl⟩⟩

theorem apply_sound_eq_ok_iff {pan duration : R} {description : String} :
    apply setup p ⟨number, .sound pan duration description⟩ s = .ok q t ↔
      Scalar.IsLength duration ∧
        materialize setup ⟨⟨.sound, description⟩, some duration, number⟩ s
          = .ok (setup.store.pathFor ⟨.sound, description⟩) t ∧
        q = p.play (setup.store.pathFor ⟨.sound, description⟩) duration pan := by
  rw [apply_eq_ok_iff, recheck_sound_eq_ok_iff]
  refine and_congr_right fun _ => ?_
  constructor
  · intro h
    obtain ⟨path, u, hpath, h⟩ := Work.bind_eq_ok.mp h
    cases h
    obtain rfl := materialize_eq_ok hpath
    exact ⟨hpath, rfl⟩
  · rintro ⟨hpath, rfl⟩
    exact Work.bind_eq_ok.mpr ⟨_, t, hpath, rfl⟩

/-- The track that a command starts. -/
def Progress.begin (p : Progress R) (track : Track R) : Progress R :=
  { p with
    live := p.live ++ [track]
    report := { p.report with backgroundTracks := p.report.backgroundTracks + 1 } }

theorem apply_backgroundStart_eq_ok_iff {pan : R} {description : String} :
    apply setup p ⟨number, .backgroundStart pan description⟩ s = .ok q t ↔
      description ∉ p.live.map (·.description) ∧
        materialize setup ⟨⟨.sound, description⟩, none, number⟩ s
          = .ok (setup.store.pathFor ⟨.sound, description⟩) t ∧
        q = p.begin ⟨description, pan, setup.store.pathFor ⟨.sound, description⟩, p.clock,
          number⟩ := by
  rw [apply_eq_ok_iff, recheck_backgroundStart_eq_ok_iff]
  refine and_congr_right fun _ => ?_
  constructor
  · intro h
    obtain ⟨path, u, hpath, h⟩ := Work.bind_eq_ok.mp h
    cases h
    obtain rfl := materialize_eq_ok hpath
    exact ⟨hpath, rfl⟩
  · rintro ⟨hpath, rfl⟩
    exact Work.bind_eq_ok.mpr ⟨_, t, hpath, rfl⟩

/-- A build without a track that it had. -/
def Progress.drop (p : Progress R) (description : String) : Progress R :=
  { p with live := p.live.eraseP (·.description = description) }

theorem perform_backgroundStop_eq {description : String} :
    perform setup p ⟨number, .backgroundStop description⟩
      = match p.live.find? (·.description = description) with
        | none => throw (.unknownTrack number description)
        | some track => flush setup (p.drop description) track number := rfl

theorem apply_backgroundStop_eq_ok_iff {description : String} :
    apply setup p ⟨number, .backgroundStop description⟩ s = .ok q t ↔
      ∃ track, p.live.find? (·.description = description) = some track ∧
        flush setup (p.drop description) track number s = .ok q t := by
  rw [apply_of_rechecked rfl, perform_backgroundStop_eq]
  cases p.live.find? (·.description = description) with
  | none =>
      constructor
      · intro h
        cases h
      · rintro ⟨track, htrack, -⟩
        cases htrack
  | some track =>
      constructor
      · intro h
        exact ⟨track, rfl, h⟩
      · rintro ⟨found, hfound, h⟩
        cases hfound
        exact h

theorem apply_wait_eq_ok_iff {duration : R} :
    apply setup p ⟨number, .wait duration⟩ s = .ok q t ↔
      Scalar.IsPause duration ∧ q = { p with clock := p.clock + duration } ∧ t = s := by
  rw [apply_eq_ok_iff, recheck_wait_eq_ok_iff]
  refine and_congr_right fun _ => ?_
  constructor
  · intro h
    cases h
    exact ⟨rfl, rfl⟩
  · rintro ⟨rfl, rfl⟩
    rfl

end Build

end Soundstage
