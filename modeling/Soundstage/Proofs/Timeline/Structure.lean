import Mathlib.Data.List.Induction
import Soundstage.Timeline.Structure

/-!
# The structure check, line by line

`ScriptLine.playingAfter` refuses a line, or says which tracks play behind it. The lemmas here say
for each command when it is accepted and what it does to the tracks that play, that the check of a
script goes through each of its beginnings, and that it stops at the first line that is refused.
-/

namespace Soundstage

variable {R : Type} [Scalar R]

/-- The numbers of a command that are refused are refused with its line. -/
theorem Command.line_of_check {line : Nat} {command : Command R} {failure : Failure R}
    (h : command.check line = .error failure) : failure.line? = some line := by
  have hpan : ∀ {pan : R} {failure : Failure R}, checkPan line pan = .error failure →
      failure.line? = some line := by
    intro pan failure h
    unfold checkPan at h
    split at h <;> cases h
    rfl
  cases command with
  | voice pan phrase => exact hpan h
  | backgroundStart pan description => exact hpan h
  | backgroundStop description => cases h
  | sound pan duration description =>
      simp only [check] at h
      cases hp : (checkPan line pan : Except (Failure R) Unit) with
      | error cause =>
          rw [hp] at h
          cases h
          exact hpan hp
      | ok u =>
          simp only [hp, bind, Except.bind] at h
          split at h <;> cases h
          rfl
  | wait duration =>
      simp only [check] at h
      split at h <;> cases h
      rfl

namespace ScriptLine

/-- What a line that is accepted does to the tracks that play. -/
def Changes (playing playing' : List String) : Command R → Prop
  | .backgroundStart _ description => description ∉ playing ∧ playing' = description :: playing
  | .backgroundStop description => description ∈ playing ∧ playing' = playing.erase description
  | _ => playing' = playing

theorem playingAfter_eq_ok_iff {line : ScriptLine R} {playing playing' : List String} :
    line.playingAfter playing = .ok playing' ↔
      line.command.IsValid ∧ Changes playing playing' line.command := by
  unfold playingAfter
  rw [← Command.check_eq_ok_iff line.line line.command]
  cases hc : line.command.check line.line with
  | error failure => simp [bind, Except.bind]
  | ok u =>
      simp only [bind, Except.bind, true_and]
      cases line.command with
      | backgroundStart pan description =>
          by_cases hd : description ∈ playing <;> simp [Changes, hd, eq_comm]
      | backgroundStop description =>
          by_cases hd : description ∈ playing <;> simp [Changes, hd, eq_comm]
      | _ => simp [Changes, eq_comm]

omit [Scalar R] in
/-- No description plays twice behind a line either. -/
theorem Changes.nodup {playing playing' : List String} {command : Command R}
    (h : Changes playing playing' command) (hnodup : playing.Nodup) : playing'.Nodup := by
  cases command with
  | backgroundStart pan description =>
      obtain ⟨hnew, rfl⟩ := h
      exact List.nodup_cons.mpr ⟨hnew, hnodup⟩
  | backgroundStop description =>
      obtain ⟨-, rfl⟩ := h
      exact hnodup.erase description
  | voice pan phrase =>
      obtain rfl := h
      exact hnodup
  | sound pan duration description =>
      obtain rfl := h
      exact hnodup
  | wait duration =>
      obtain rfl := h
      exact hnodup

/-- A line that is refused is named by the failure. -/
theorem line_of_playingAfter {line : ScriptLine R} {playing : List String} {failure : Failure R}
    (h : line.playingAfter playing = .error failure) : failure.line? = some line.line := by
  unfold playingAfter at h
  cases hc : line.command.check line.line with
  | error cause =>
      rw [hc] at h
      cases h
      exact Command.line_of_check hc
  | ok u =>
      simp only [hc, bind, Except.bind] at h
      cases hcommand : line.command with
      | backgroundStart pan description =>
          simp only [hcommand] at h
          split at h <;> cases h
          rfl
      | backgroundStop description =>
          simp only [hcommand] at h
          split at h <;> cases h
          rfl
      | _ => simp [hcommand] at h

end ScriptLine

variable {lines done more : List (ScriptLine R)} {failure : Failure R}

theorem checkStructure_eq_ok_iff : checkStructure lines = .ok () ↔
    ∃ playing, lines.foldlM ScriptLine.playingAfter [] = .ok playing := by
  unfold checkStructure
  cases lines.foldlM ScriptLine.playingAfter [] <;> simp [bind, Except.bind, pure, Except.pure]

theorem checkStructure_eq_error_iff : checkStructure lines = .error failure ↔
    lines.foldlM ScriptLine.playingAfter [] = .error failure := by
  unfold checkStructure
  cases lines.foldlM ScriptLine.playingAfter [] <;> simp [bind, Except.bind, pure, Except.pure]

/-- Checking one line more. -/
theorem playing_concat_eq_ok {line : ScriptLine R} {playing : List String} :
    (done ++ [line]).foldlM ScriptLine.playingAfter [] = .ok playing ↔
      ∃ before, done.foldlM ScriptLine.playingAfter [] = .ok before ∧
        line.playingAfter before = .ok playing := by
  rw [List.foldlM_append]
  cases done.foldlM ScriptLine.playingAfter [] with
  | error failure => simp [bind, Except.bind]
  | ok before =>
      simp only [List.foldlM_cons, List.foldlM_nil, bind, Except.bind, pure, Except.pure,
        Except.ok.injEq, exists_eq_left']
      cases line.playingAfter before <;> simp

/-- No description is in the account of the check twice. -/
theorem nodup_of_playing {playing : List String}
    (h : done.foldlM ScriptLine.playingAfter [] = .ok playing) : playing.Nodup := by
  induction done using List.reverseRecOn generalizing playing with
  | nil =>
      cases h
      exact List.nodup_nil
  | append_singleton done line ih =>
      obtain ⟨before, hbefore, hline⟩ := playing_concat_eq_ok.mp h
      obtain ⟨-, hchanges⟩ := ScriptLine.playingAfter_eq_ok_iff.mp hline
      exact hchanges.nodup (ih hbefore)

theorem isValid_of_playingAfter {playing final : List String}
    (h : lines.foldlM ScriptLine.playingAfter playing = .ok final) :
    ∀ line ∈ lines, line.command.IsValid := by
  induction lines generalizing playing with
  | nil => simp
  | cons first rest ih =>
      rw [List.foldlM_cons] at h
      cases hfirst : first.playingAfter playing with
      | error failure =>
          rw [hfirst] at h
          cases h
      | ok next =>
          rw [hfirst] at h
          intro line hline
          rcases List.mem_cons.mp hline with rfl | hrest
          · exact (ScriptLine.playingAfter_eq_ok_iff.mp hfirst).1
          · exact ih h line hrest

/-- All commands of a script that is accepted are valid. -/
theorem isValid_of_checkStructure (h : checkStructure lines = .ok ()) :
    ∀ line ∈ lines, line.command.IsValid := by
  obtain ⟨playing, hplaying⟩ := checkStructure_eq_ok_iff.mp h
  exact isValid_of_playingAfter hplaying

/-- Where lines are refused, there is a first one that is, by induction on the lines. -/
theorem exists_refused_line {playing : List String}
    (h : lines.foldlM ScriptLine.playingAfter playing = .error failure) :
    ∃ before line after playing', lines = before ++ line :: after ∧
      before.foldlM ScriptLine.playingAfter playing = .ok playing' ∧
      line.playingAfter playing' = .error failure := by
  induction lines generalizing playing with
  | nil => cases h
  | cons first rest ih =>
      rw [List.foldlM_cons] at h
      cases hfirst : first.playingAfter playing with
      | error cause =>
          rw [hfirst] at h
          cases h
          exact ⟨[], first, rest, playing, rfl, rfl, hfirst⟩
      | ok next =>
          rw [hfirst] at h
          obtain ⟨before, line, after, playing', rfl, hbefore, hline⟩ := ih h
          refine ⟨first :: before, line, after, playing', rfl, ?_, hline⟩
          rw [List.foldlM_cons, hfirst]
          exact hbefore

/-- A script that is refused has a first line with which it is. -/
theorem exists_refused (h : checkStructure lines = .error failure) :
    ∃ before line after, lines = before ++ line :: after ∧ checkStructure before = .ok () ∧
      checkStructure (before ++ [line]) = .error failure := by
  obtain ⟨before, line, after, playing, rfl, hbefore, hline⟩ :=
    exists_refused_line (checkStructure_eq_error_iff.mp h)
  refine ⟨before, line, after, rfl, checkStructure_eq_ok_iff.mpr ⟨playing, hbefore⟩, ?_⟩
  rw [checkStructure_eq_error_iff, List.foldlM_append, hbefore]
  simp [hline, bind, Except.bind]

/-- The failure names this line. -/
theorem line_of_refused {line : ScriptLine R} (hdone : checkStructure done = .ok ())
    (h : checkStructure (done ++ [line]) = .error failure) : failure.line? = some line.line := by
  obtain ⟨playing, hplaying⟩ := checkStructure_eq_ok_iff.mp hdone
  unfold checkStructure at h
  rw [List.foldlM_append, hplaying] at h
  cases hline : line.playingAfter playing with
  | error cause =>
      simp only [bind, Except.bind, List.foldlM_cons, hline] at h
      cases h
      exact ScriptLine.line_of_playingAfter hline
  | ok next => simp [hline, bind, Except.bind, pure, Except.pure] at h

end Soundstage
