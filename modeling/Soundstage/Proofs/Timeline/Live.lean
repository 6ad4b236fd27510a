import Mathlib.Data.List.Induction
import Soundstage.Proofs.Timeline.Course
import Soundstage.Proofs.Timeline.Steps

/-!
# Where the tracks of a build come from

Whatever the collaborators answer, the tracks that play behind some commands are those that these
have started and not stopped: each comes from the line of its start, with the clock that the build
had there, and stays until a line stops it. No two of them have one description, so that a stop
always finds the track it names, and what a command is checked for when it is its turn has been
found by the check of the structure.
-/

namespace Soundstage

variable {R σ : Type}

namespace Build

variable [Scalar R] {setup : Setup R σ} {p q : Progress R} {s t u v : Session R σ}
  {line : ScriptLine R} {track : Track R} {done more : List (ScriptLine R)}

/-- The tracks behind a command. -/
def liveAfter (setup : Setup R σ) (p : Progress R) (line : ScriptLine R) : List (Track R) :=
  match line.command with
  | .backgroundStart pan description =>
    p.live ++ [⟨description, pan, setup.store.pathFor ⟨.sound, description⟩, p.clock, line.line⟩]
  | .backgroundStop description => p.live.eraseP (·.description = description)
  | _ => p.live

theorem live_of_apply (h : apply setup p line s = .ok q t) : q.live = liveAfter setup p line := by
  obtain ⟨number, command⟩ := line
  cases command with
  | voice pan phrase =>
      obtain ⟨u, secs, -, -, rfl⟩ := apply_voice_eq_ok_iff.mp h
      rfl
  | sound pan duration description =>
      obtain ⟨-, -, rfl⟩ := apply_sound_eq_ok_iff.mp h
      rfl
  | backgroundStart pan description =>
      obtain ⟨-, -, rfl⟩ := apply_backgroundStart_eq_ok_iff.mp h
      rfl
  | backgroundStop description =>
      obtain ⟨track, -, hflush⟩ := apply_backgroundStop_eq_ok_iff.mp h
      obtain ⟨placed, loops, rfl⟩ := exists_clips_of_flush hflush
      rfl
  | wait duration =>
      obtain ⟨-, rfl, -⟩ := apply_wait_eq_ok_iff.mp h
      rfl

theorem live_of_step (h : step setup p line s = .ok q t) : q.live = liveAfter setup p line := by
  obtain ⟨p', u, -, happly, rfl⟩ := step_eq_ok_iff.mp h
  exact (live_of_apply happly :)

/-- A command only adds clips. -/
theorem exists_segments_of_step (h : step setup p line s = .ok q t) :
    ∃ placed, q.segments.toList = p.segments.toList ++ placed := by
  obtain ⟨p', u, -, happly, rfl⟩ := step_eq_ok_iff.mp h
  obtain ⟨number, command⟩ := line
  cases command with
  | voice pan phrase =>
      obtain ⟨u, secs, -, -, rfl⟩ := apply_voice_eq_ok_iff.mp happly
      exact ⟨_, Array.toList_push⟩
  | sound pan duration description =>
      obtain ⟨-, -, rfl⟩ := apply_sound_eq_ok_iff.mp happly
      exact ⟨_, Array.toList_push⟩
  | backgroundStart pan description =>
      obtain ⟨-, -, rfl⟩ := apply_backgroundStart_eq_ok_iff.mp happly
      exact ⟨[], (List.append_nil _).symm⟩
  | backgroundStop description =>
      obtain ⟨track, -, hflush⟩ := apply_backgroundStop_eq_ok_iff.mp happly
      obtain ⟨placed, loops, rfl⟩ := exists_clips_of_flush hflush
      exact ⟨placed, by simp [Progress.drop]⟩
  | wait duration =>
      obtain ⟨-, rfl, -⟩ := apply_wait_eq_ok_iff.mp happly
      exact ⟨[], (List.append_nil _).symm⟩

/-- Several commands only add clips, by induction on them. -/
theorem exists_segments_of_steps (h : more.foldlM (step setup) p s = .ok q t) :
    ∃ placed, q.segments.toList = p.segments.toList ++ placed := by
  induction more generalizing p s with
  | nil =>
      cases h
      exact ⟨[], (List.append_nil _).symm⟩
  | cons line rest ih =>
      rw [List.foldlM_cons] at h
      obtain ⟨p', u, hstep, hrest⟩ := Work.bind_eq_ok.mp h
      obtain ⟨first, hfirst⟩ := exists_segments_of_step hstep
      obtain ⟨others, hothers⟩ := ih hrest
      exact ⟨first ++ others, by rw [hothers, hfirst, List.append_assoc]⟩

/-- The check of the structure and the build agree on which tracks play behind a command. -/
theorem plays_of_step {playing playing' : List String} (hplays : Plays playing p)
    (hchanges : ScriptLine.Changes playing playing' line.command)
    (h : step setup p line s = .ok q t) : Plays playing' q := by
  unfold Plays at hplays ⊢
  rw [live_of_step h]
  obtain ⟨number, command⟩ := line
  cases command with
  | backgroundStart pan description =>
      obtain ⟨-, rfl⟩ := hchanges
      rw [liveAfter, List.map_append]
      exact (hplays.cons description).trans (List.perm_append_singleton _ _).symm
  | backgroundStop description =>
      obtain ⟨-, rfl⟩ := hchanges
      rw [liveAfter, map_eraseP]
      exact hplays.erase description
  | voice pan phrase =>
      obtain rfl := hchanges
      exact hplays
  | sound pan duration description =>
      obtain rfl := hchanges
      exact hplays
  | wait duration =>
      obtain rfl := hchanges
      exact hplays

/-- They agree behind any number of commands, by induction on the script from its end. -/
theorem plays_of_commands {playing : List String}
    (hplaying : done.foldlM ScriptLine.playingAfter [] = .ok playing)
    (h : commands setup done v = .ok p t) : Plays playing p := by
  induction done using List.reverseRecOn generalizing playing p t with
  | nil =>
      cases hplaying
      cases h
      exact List.Perm.refl []
  | append_singleton done line ih =>
      obtain ⟨p', u, hdone, hstep⟩ := commands_concat_eq_ok.mp h
      obtain ⟨before, hbefore, hline⟩ := playing_concat_eq_ok.mp hplaying
      obtain ⟨-, hchanges⟩ := ScriptLine.playingAfter_eq_ok_iff.mp hline
      exact plays_of_step (ih hbefore hdone) hchanges hstep

/-- Behind some commands of a script that is accepted, the check can go on with the tracks that
play. -/
theorem exists_plays (hc : checkStructure (done ++ more) = .ok ())
    (h : commands setup done v = .ok p t) :
    ∃ playing final, more.foldlM ScriptLine.playingAfter playing = .ok final ∧ playing.Nodup ∧
      Plays playing p := by
  obtain ⟨final, hfinal⟩ := checkStructure_eq_ok_iff.mp hc
  rw [List.foldlM_append] at hfinal
  cases hplaying : done.foldlM ScriptLine.playingAfter [] with
  | error failure =>
      rw [hplaying] at hfinal
      cases hfinal
  | ok playing =>
      rw [hplaying] at hfinal
      exact ⟨playing, final, hfinal, nodup_of_playing hplaying, plays_of_commands hplaying h⟩

/-- No track plays twice. -/
theorem nodup_live (hc : checkStructure (done ++ more) = .ok ())
    (h : commands setup done v = .ok p t) : (p.live.map (·.description)).Nodup := by
  obtain ⟨playing, final, -, hnodup, hplays⟩ := exists_plays hc h
  exact hplays.nodup_iff.mp hnodup

/-- The check goes on with the line that comes next, from the tracks that play. -/
theorem exists_changes (hc : checkStructure (done ++ line :: more) = .ok ())
    (h : commands setup done v = .ok p t) :
    ∃ playing playing', line.command.IsValid ∧ ScriptLine.Changes playing playing' line.command ∧
      Plays playing p := by
  obtain ⟨playing, final, hmore, -, hplays⟩ := exists_plays hc h
  rw [List.foldlM_cons] at hmore
  cases hline : line.playingAfter playing with
  | error failure =>
      rw [hline] at hmore
      cases hmore
  | ok playing' =>
      obtain ⟨hvalid, hchanges⟩ := ScriptLine.playingAfter_eq_ok_iff.mp hline
      exact ⟨playing, playing', hvalid, hchanges, hplays⟩

/-- What a command is checked for when it is its turn has been found by the check of the structure,
so that a command of a script that is accepted is never refused. -/
theorem recheck_of_commands (hc : checkStructure (done ++ line :: more) = .ok ())
    (h : commands setup done v = .ok p t) : p.recheck line = .ok () := by
  obtain ⟨playing, playing', hvalid, hchanges, hplays⟩ := exists_changes hc h
  obtain ⟨number, command⟩ := line
  cases command with
  | voice pan phrase => rfl
  | sound pan duration description => exact if_pos hvalid.2
  | backgroundStart pan description =>
      refine if_neg fun hany => hchanges.1 (hplays.mem_iff.mpr ?_)
      simpa using hany
  | backgroundStop description => rfl
  | wait duration => exact if_pos hvalid

theorem ComesTo.recheck {lines before : List (ScriptLine R)}
    (h : ComesTo setup lines s before line p t) : p.recheck line = .ok () := by
  obtain @⟨after, w, hc, rfl, -, hbefore⟩ := h
  exact recheck_of_commands hc hbefore

/-- A stop finds its track. -/
theorem exists_find?_live {number : Nat} {description : String}
    (hc : checkStructure (done ++ ⟨number, .backgroundStop description⟩ :: more) = .ok ())
    (h : commands setup done v = .ok p t) :
    ∃ track, p.live.find? (·.description = description) = some track ∧
      track.description = description := by
  obtain ⟨playing, playing', -, ⟨hmem, -⟩, hplays⟩ := exists_changes hc h
  obtain ⟨track, htrack, hdescription⟩ := List.mem_map.mp (hplays.mem_iff.mp hmem)
  cases hfind : p.live.find? (·.description = description) with
  | none =>
      exact absurd (List.find?_eq_none.mp hfind track htrack) (by simpa using hdescription)
  | some found => exact ⟨found, rfl, by simpa using List.find?_some hfind⟩

omit [Scalar R] in
/-- A track that plays is the one that its description finds. -/
theorem find?_of_mem {tracks : List (Track R)} (h : (tracks.map (·.description)).Nodup)
    (hmem : track ∈ tracks) :
    tracks.find? (·.description = track.description) = some track := by
  induction tracks with
  | nil => cases hmem
  | cons first rest ih =>
      rw [List.map_cons, List.nodup_cons] at h
      rcases List.mem_cons.mp hmem with rfl | hrest
      · exact List.find?_cons_of_pos (by simp)
      · have hne : first.description ≠ track.description := by
          intro heq
          exact h.1 (heq ▸ List.mem_map_of_mem hrest)
        rw [List.find?_cons_of_neg (by simpa using hne)]
        exact ih h.2 hrest

/-- A track goes on to play until a line stops it, by induction on the commands. -/
theorem mem_live_of_steps (hmem : track ∈ p.live)
    (hmore : ∀ line ∈ more, Clips.isStop track.description line = false)
    (h : more.foldlM (step setup) p s = .ok q t) : track ∈ q.live := by
  induction more generalizing p s with
  | nil =>
      cases h
      exact hmem
  | cons line rest ih =>
      rw [List.foldlM_cons] at h
      obtain ⟨p', u, hstep, hrest⟩ := Work.bind_eq_ok.mp h
      refine ih ?_ (fun other hother => hmore other (List.mem_cons_of_mem _ hother)) hrest
      have hline := hmore line List.mem_cons_self
      rw [live_of_step hstep]
      obtain ⟨number, command⟩ := line
      cases command with
      | backgroundStart pan description => exact List.mem_append_left _ hmem
      | backgroundStop description =>
          have hne : track.description ≠ description := by
            intro heq
            simp [Clips.isStop, heq] at hline
          exact (List.mem_eraseP_of_neg (by simpa using hne)).mpr hmem
      | _ => exact hmem

/-- A track has been started by a line of the given ones, with the clock that the build had there,
and none of those behind it stops the track. -/
def Track.IsStarted (setup : Setup R σ) (v : Session R σ) (done : List (ScriptLine R))
    (track : Track R) : Prop :=
  ∃ before after, done = before
      ++ ⟨track.line, .backgroundStart track.pan track.description⟩ :: after ∧
    (∀ line ∈ after, Clips.isStop track.description line = false) ∧
    track.path = setup.store.pathFor ⟨.sound, track.description⟩ ∧
    ∃ q w, commands setup before v = .ok q w ∧ q.clock = track.start

theorem Track.IsStarted.concat (h : track.IsStarted setup v done)
    (hline : Clips.isStop track.description line = false) :
    track.IsStarted setup v (done ++ [line]) := by
  obtain ⟨before, after, rfl, hafter, hpath, hclock⟩ := h
  refine ⟨before, after ++ [line], by simp, ?_, hpath, hclock⟩
  intro other hother
  rcases List.mem_append.mp hother with hold | hnew
  · exact hafter other hold
  · rw [List.mem_singleton.mp hnew]
    exact hline

/-- All tracks that play behind some commands have been started by them, by induction on the script
from its end. -/
theorem isStarted_of_mem_live (hc : checkStructure (done ++ more) = .ok ())
    (h : commands setup done v = .ok p t) : ∀ track ∈ p.live, track.IsStarted setup v done := by
  induction done using List.reverseRecOn generalizing p t more with
  | nil =>
      cases h
      intro track htrack
      cases htrack
  | append_singleton done line ih =>
      obtain ⟨p', u, hdone, hstep⟩ := commands_concat_eq_ok.mp h
      rw [List.append_assoc] at hc
      have hstarted := ih hc hdone
      intro track htrack
      rw [live_of_step hstep] at htrack
      obtain ⟨number, command⟩ := line
      cases command with
      | backgroundStart pan description =>
          rcases List.mem_append.mp htrack with hold | hnew
          · exact (hstarted track hold).concat rfl
          · rw [List.mem_singleton.mp hnew]
            exact ⟨done, [], rfl, by simp, rfl, p', u, hdone, rfl⟩
      | backgroundStop description =>
          simp only [liveAfter] at htrack
          rw [eraseP_eq_filter (nodup_live hc hdone)] at htrack
          obtain ⟨hold, hne⟩ := List.mem_filter.mp htrack
          exact (hstarted track hold).concat (by simpa [Clips.isStop] using hne)
      | voice pan phrase => exact (hstarted track htrack).concat rfl
      | sound pan duration description => exact (hstarted track htrack).concat rfl
      | wait duration => exact (hstarted track htrack).concat rfl

end Build

end Soundstage
