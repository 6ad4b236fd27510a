import Soundstage.Proofs.Timeline.Work

/-!
# The stages of a build

A build checks the structure of its script, generates ahead if it has several workers, runs the
commands and checks the timeline. The equations here say how these stages follow each other.
-/

namespace Soundstage

variable {R σ : Type} [Scalar R] {setup : Setup R σ} {lines : List (ScriptLine R)}
  {s t : Session R σ}

namespace Build

/-- The timeline of a run, before it is checked. -/
def Progress.timeline (p : Progress R) : Timeline R := ⟨p.clock, p.segments.toList⟩

/-- What a build does behind the generating ahead. -/
def conclude (setup : Setup R σ) (lines : List (ScriptLine R)) : Work R σ (Timeline R × Report) :=
  run setup lines >>= fun p =>
    match finish p with
    | .error failure => throw failure
    | .ok result => return result

section Commands

variable {p q : Progress R} {line : ScriptLine R} {failure : Failure R}

/-- A refusal names the line, and the length or the track that it is about. -/
theorem recheck_eq_error (h : p.recheck line = .error failure) :
    (∃ duration, failure = .invalidDuration line.line duration) ∨
      ∃ description, failure = .duplicateTrack line.line description := by
  unfold Progress.recheck at h
  split at h
  · split at h
    · cases h
    · cases h
      exact .inl ⟨_, rfl⟩
  · split at h
    · cases h
      exact .inr ⟨_, rfl⟩
    · cases h
  · split at h
    · cases h
    · cases h
      exact .inl ⟨_, rfl⟩
  · cases h
  · cases h

theorem apply_of_rechecked (h : p.recheck line = .ok ()) :
    apply setup p line = perform setup p line := by
  unfold apply
  rw [h]

/-- A command that is refused asks nobody and changes nothing. -/
theorem apply_of_refused (h : p.recheck line = .error failure) :
    apply setup p line s = .error failure s := by
  unfold apply
  rw [h]
  rfl

theorem apply_eq_ok_iff : apply setup p line s = .ok q t ↔
    p.recheck line = .ok () ∧ perform setup p line s = .ok q t := by
  cases hrecheck : p.recheck line with
  | error failure => simp [apply_of_refused hrecheck]
  | ok _ => simp [apply_of_rechecked hrecheck]

end Commands

theorem step_eq_ok {p q : Progress R} {line : ScriptLine R} (h : step setup p line s = .ok q t) :
    ∃ p' u, apply setup p line u = .ok p' t ∧ q = { p' with report := q.report } := by
  obtain ⟨-, u, -, h⟩ := Work.bind_eq_ok.mp h
  obtain ⟨p', v, happly, h⟩ := Work.bind_eq_ok.mp h
  cases h
  exact ⟨p', u, happly, rfl⟩

theorem flushLeft_eq_ok {p q : Progress R} {track : Track R}
    (h : flushLeft setup p track s = .ok q t) :
    ∃ p', flush setup p track track.line s = .ok p' t ∧ q = { p' with report := q.report } := by
  obtain ⟨p', u, hflush, h⟩ := Work.bind_eq_ok.mp h
  cases h
  exact ⟨p', hflush, rfl⟩

theorem finish_eq_ok {p : Progress R} {timeline : Timeline R} {report : Report}
    (h : finish p = .ok (timeline, report)) :
    timeline = p.timeline ∧ p.timeline.check = .ok () ∧
      report = { p.report with segments := p.segments.size } := by
  unfold finish at h
  cases hc : (⟨p.clock, p.segments.toList⟩ : Timeline R).check with
  | error failure => simp [hc, bind, Except.bind] at h
  | ok u =>
      simp only [hc, bind, Except.bind] at h
      cases h
      exact ⟨rfl, hc, rfl⟩

theorem conclude_eq_ok {timeline : Timeline R} {report : Report}
    (h : conclude setup lines s = .ok (timeline, report) t) :
    ∃ p, run setup lines s = .ok p t ∧ timeline = p.timeline ∧ p.timeline.check = .ok () ∧
      report = { p.report with segments := p.segments.size } := by
  obtain ⟨p, u, hrun, hfinish⟩ := Work.bind_eq_ok.mp h
  cases hf : finish p with
  | error failure =>
      simp only [hf] at hfinish
      cases hfinish
  | ok result =>
      simp only [hf] at hfinish
      cases hfinish
      exact ⟨p, hrun, finish_eq_ok hf⟩

end Build

/-- A script that is refused is not run at all. -/
theorem build_of_refused {failure : Failure R} (h : checkStructure lines = .error failure) :
    build setup lines s = .error failure s := by
  unfold build
  rw [h]
  rfl

theorem build_of_one_worker (h : checkStructure lines = .ok ()) (hw : ¬ 1 < setup.workers) :
    build setup lines s = Build.conclude setup lines s := by
  unfold build
  simp only [h, if_neg hw]
  rfl

theorem build_of_many_workers (h : checkStructure lines = .ok ()) (hw : 1 < setup.workers) :
    build setup lines s
      = (Build.prefetch setup lines >>= fun _ => Build.conclude setup lines) s := by
  unfold build
  simp only [h, if_pos hw]
  rfl

/-- A build that succeeds has checked its script and has gone through all commands. -/
theorem build_eq_ok {result : Timeline R × Report} (h : build setup lines s = .ok result t) :
    checkStructure lines = .ok () ∧ ∃ u, Build.conclude setup lines u = .ok result t := by
  cases hc : checkStructure lines with
  | error failure =>
      rw [build_of_refused hc] at h
      cases h
  | ok u =>
      refine ⟨rfl, ?_⟩
      by_cases hw : 1 < setup.workers
      · rw [build_of_many_workers hc hw] at h
        obtain ⟨-, v, -, h⟩ := Work.bind_eq_ok.mp h
        exact ⟨v, h⟩
      · rw [build_of_one_worker hc hw] at h
        exact ⟨s, h⟩

end Soundstage
