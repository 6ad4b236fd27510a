import Soundstage.Proofs.Timeline.Blame
import Soundstage.Proofs.Timeline.Foreground
import Soundstage.Proofs.Timeline.Tally

/-!
# The end of a script stops its tracks

Tracks that still play behind the last line are stopped by the end of the script. Writing these
stops out, in the order in which the tracks were started, makes no difference to what is heard: the
build with the stops makes the same calls and ends with the same timeline, and it only counts them
among its commands. `neverStopped` reads off the script which tracks these are, and
`Work.EndsBeside` relates the two builds, whose failures may name different lines.
-/

namespace Soundstage

variable {R σ α β α' β' : Type}

/-- The tracks that a script starts and no later line stops, in the order of their starts. -/
def neverStopped : List (ScriptLine R) → List String
  | [] => []
  | line :: rest =>
    match line.command with
    | .backgroundStart _ description =>
      if rest.any (Clips.isStop description) then neverStopped rest
      else description :: neverStopped rest
    | _ => neverStopped rest

/-- Lines that stop some tracks, one after the other. -/
def AreStops (descriptions : List String) (stops : List (ScriptLine R)) : Prop :=
  stops.map (·.command) = descriptions.map .backgroundStop

section Lasting

variable {done lines stops : List (ScriptLine R)} {line : ScriptLine R}

/-- What a command does to the tracks that are never stopped. -/
def lastingAfter (lasting : List String) : Command R → List String
  | .backgroundStart _ description => lasting ++ [description]
  | .backgroundStop description => lasting.filter (· ≠ description)
  | _ => lasting

theorem neverStopped_start (number : Nat) (pan : R) (description : String)
    (rest : List (ScriptLine R)) :
    neverStopped (⟨number, .backgroundStart pan description⟩ :: rest)
      = if rest.any (Clips.isStop description) then neverStopped rest
        else description :: neverStopped rest := rfl

/-- One line more starts a track that is not stopped, or stops those of its description. -/
theorem neverStopped_concat (done : List (ScriptLine R)) (line : ScriptLine R) :
    neverStopped (done ++ [line]) = lastingAfter (neverStopped done) line.command := by
  obtain ⟨number, command⟩ := line
  induction done with
  | nil => cases command <;> rfl
  | cons first rest ih =>
      obtain ⟨other, earlier⟩ := first
      cases earlier with
      | backgroundStart pan description =>
          rw [List.cons_append, neverStopped_start, neverStopped_start, List.any_append, ih]
          by_cases hstop : rest.any (Clips.isStop description) = true
          · simp only [hstop, Bool.true_or, if_true]
          · rw [Bool.not_eq_true] at hstop
            simp only [hstop, Bool.false_or]
            cases command with
            | backgroundStop named =>
                by_cases hnamed : named = description
                · simp [Clips.isStop, lastingAfter, hnamed]
                · simp [Clips.isStop, lastingAfter, hnamed, Ne.symm hnamed]
            | _ => rfl
      | _ => exact ih

variable [Scalar R]

/-- The check of the structure and the script agree on the tracks that are left, by induction on the
script from its end. -/
theorem perm_of_playing {playing : List String}
    (h : done.foldlM ScriptLine.playingAfter [] = .ok playing) :
    playing.Perm (neverStopped done) := by
  induction done using List.reverseRecOn generalizing playing with
  | nil =>
      cases h
      exact List.Perm.refl []
  | append_singleton done line ih =>
      obtain ⟨before, hbefore, hline⟩ := playing_concat_eq_ok.mp h
      obtain ⟨-, hchanges⟩ := ScriptLine.playingAfter_eq_ok_iff.mp hline
      have hperm := ih hbefore
      rw [neverStopped_concat]
      obtain ⟨number, command⟩ := line
      cases command with
      | backgroundStart pan description =>
          obtain ⟨-, rfl⟩ := hchanges
          exact (hperm.cons description).trans (List.perm_append_singleton _ _).symm
      | backgroundStop description =>
          obtain ⟨-, rfl⟩ := hchanges
          have hnodup := hperm.nodup_iff.mp (nodup_of_playing hbefore)
          have herase := hperm.erase description
          rw [hnodup.erase_eq_filter] at herase
          simpa [lastingAfter, bne, beq_eq_decide] using herase
      | _ =>
          obtain rfl := hchanges
          exact hperm

/-- The structure accepts stops of the tracks that play, by induction on these. -/
theorem exists_playing_of_stops {playing descriptions : List String}
    (hstops : AreStops descriptions stops) (hperm : playing.Perm descriptions) :
    ∃ final, stops.foldlM ScriptLine.playingAfter playing = .ok final := by
  induction descriptions generalizing playing stops with
  | nil =>
      obtain rfl : stops = [] := by simpa [AreStops] using hstops
      exact ⟨playing, rfl⟩
  | cons description rest ih =>
      obtain ⟨⟨number, command⟩, later, rfl, rfl, hrest⟩ := List.map_eq_cons_iff.mp hstops
      have hmem : description ∈ playing := hperm.mem_iff.mpr List.mem_cons_self
      have hstop : (⟨number, .backgroundStop description⟩ : ScriptLine R).playingAfter playing
          = .ok (playing.erase description) :=
        ScriptLine.playingAfter_eq_ok_iff.mpr ⟨trivial, hmem, rfl⟩
      have herase : (playing.erase description).Perm rest := by
        simpa using hperm.erase description
      obtain ⟨final, hfinal⟩ := ih hrest herase
      refine ⟨final, ?_⟩
      rw [List.foldlM_cons, hstop]
      exact hfinal

/-- So it accepts a script with its stops if it accepts the script. -/
theorem checkStructure_append_stops (hstops : AreStops (neverStopped lines) stops)
    (hc : checkStructure lines = .ok ()) : checkStructure (lines ++ stops) = .ok () := by
  obtain ⟨playing, hplaying⟩ := checkStructure_eq_ok_iff.mp hc
  obtain ⟨final, hfinal⟩ := exists_playing_of_stops hstops (perm_of_playing hplaying)
  refine checkStructure_eq_ok_iff.mpr ⟨final, ?_⟩
  rw [List.foldlM_append, hplaying]
  exact hfinal

/-- And refuses both for the same reason. -/
theorem checkStructure_append_of_refused {failure : Failure R}
    (hc : checkStructure lines = .error failure) (stops : List (ScriptLine R)) :
    checkStructure (lines ++ stops) = .error failure := by
  rw [checkStructure_eq_error_iff] at hc ⊢
  rw [List.foldlM_append, hc]
  rfl

omit [Scalar R] in
theorem AreStops.exists_eq {descriptions : List String} (h : AreStops descriptions stops)
    (hline : line ∈ stops) : ∃ description, line = ⟨line.line, .backgroundStop description⟩ := by
  have hcommand : line.command ∈ descriptions.map Command.backgroundStop :=
    h ▸ List.mem_map_of_mem hline
  obtain ⟨description, -, heq⟩ := List.mem_map.mp hcommand
  exact ⟨description, by rw [heq]⟩

omit [Scalar R] in
/-- Stops ask for nothing. -/
theorem requests_append_stops {descriptions : List String} (hstops : AreStops descriptions stops) :
    requests (lines ++ stops) = requests lines := by
  have hnone : stops.filterMap ScriptLine.request? = [] := by
    rw [List.filterMap_eq_nil_iff]
    intro stop hstop
    obtain ⟨description, heq⟩ := hstops.exists_eq hstop
    rw [heq]
    rfl
  unfold requests
  rw [List.filterMap_append, hnone, List.append_nil]

omit [Scalar R] in
/-- They are counted as stops. -/
theorem AreStops.countP {descriptions : List String} (h : AreStops descriptions stops) :
    stops.length = descriptions.length ∧ stops.countP ScriptLine.startsTrack = 0 ∧
      stops.countP ScriptLine.stopsTrack = descriptions.length := by
  have hlength : stops.length = descriptions.length := by simpa using congrArg List.length h
  refine ⟨hlength, List.countP_eq_zero.mpr fun stop hstop => ?_, ?_⟩
  · obtain ⟨description, heq⟩ := h.exists_eq hstop
    rw [heq]
    exact Bool.false_ne_true
  · rw [← hlength, List.countP_eq_length]
    intro stop hstop
    obtain ⟨description, heq⟩ := h.exists_eq hstop
    rw [heq]
    rfl

end Lasting

/-- Two sessions have the same store behind the same calls, and giving up has been requested in
neither. -/
structure Session.Beside (s s' : Session R σ) : Prop where
  shelf : s'.shelf = s.shelf
  calls : s'.surroundings.calls = s.surroundings.calls
  quiet : s.surroundings.cancelled = false
  quiet' : s'.surroundings.cancelled = false

theorem Session.Beside.refl {s : Session R σ} (h : s.surroundings.cancelled = false) :
    s.Beside s := ⟨rfl, rfl, h, h⟩

/-- The prober answers by the file and the disk alone, where nobody gives up. -/
def Collaborators.ProbesSteadily (c : Collaborators R σ) : Prop :=
  ∀ path disk state state',
    (c.probe path disk false state').outcome = (c.probe path disk false state).outcome

namespace Work

variable {post : α → α' → Prop} {post' : β → β' → Prop} {work : Work R σ α} {work' : Work R σ α'}
  {next : α → Work R σ β} {next' : α' → Work R σ β'} {s s' : Session R σ}

/-- Two computations end beside each other: both answer, or both fail. -/
inductive EndsBeside (post : α → α' → Prop) : EStateM.Result (Failure R) (Session R σ) α →
    EStateM.Result (Failure R) (Session R σ) α' → Prop
  | ok {a : α} {a' : α'} {t t' : Session R σ} (h : post a a') (hs : t.Beside t') :
      EndsBeside post (.ok a t) (.ok a' t')
  | error {failure failure' : Failure R} {t t' : Session R σ} (hs : t.Beside t') :
      EndsBeside post (.error failure t) (.error failure' t')

theorem EndsBeside.bind (h : EndsBeside post (work s) (work' s'))
    (hnext : ∀ a a' t t', post a a' → t.Beside t' → EndsBeside post' (next a t) (next' a' t')) :
    EndsBeside post' ((work >>= next) s) ((work' >>= next') s') := by
  generalize hw : work s = result at h
  generalize hw' : work' s' = result' at h
  cases h with
  | ok h hs =>
      rw [bind_apply_of_ok hw, bind_apply_of_ok hw']
      exact hnext _ _ _ _ h hs
  | error hs =>
      rw [bind_apply_of_error hw, bind_apply_of_error hw']
      exact .error hs

theorem EndsBeside.behind (h : EndsBeside post (work s) (work' s')) :
    (work.behind s).Beside (work'.behind s') := by
  generalize hw : work s = result at h
  generalize hw' : work' s' = result' at h
  cases h with
  | ok h hs =>
      rw [behind_of_ok hw, behind_of_ok hw']
      exact hs
  | error hs =>
      rw [behind_of_error hw, behind_of_error hw']
      exact hs

/-- The lines that are responsible may be different ones. -/
theorem EndsBeside.atLine (h : EndsBeside post (work s) (work' s')) (line line' : Nat) :
    EndsBeside post (atLine line work s) (atLine line' work' s') := by
  unfold Work.atLine
  generalize work s = result at h
  generalize work' s' = result' at h
  cases h with
  | ok h hs => exact .ok h hs
  | error hs => exact .error hs

variable {c : Collaborators R σ}

theorem probe_beside (hcalm : c.Calm) (hprobes : c.ProbesSteadily) (path : String)
    (hs : s.Beside s') : EndsBeside Eq (probe c path s) (probe c path s') := by
  obtain ⟨hshelf, hcalls, hquiet, hquiet'⟩ := hs
  obtain ⟨shelf, cancelled, calls, state⟩ := s
  obtain ⟨shelf', cancelled', calls', state'⟩ := s'
  obtain rfl : shelf' = shelf := hshelf
  obtain rfl : calls' = calls := hcalls
  obtain rfl : cancelled = false := hquiet
  obtain rfl : cancelled' = false := hquiet'
  have hquiet : ∀ state, (c.probe path shelf'.disk false state).cancels = false :=
    hcalm.probe path shelf'.disk
  have houtcome := hprobes path shelf'.disk state state'
  unfold probe Surroundings.ask
  dsimp only
  rw [hquiet, hquiet, houtcome]
  cases (c.probe path shelf'.disk false state).outcome with
  | ok secs => exact .ok rfl ⟨rfl, rfl, rfl, rfl⟩
  | error failure => exact .error ⟨rfl, rfl, rfl, rfl⟩

/-- Time may pass in one of them. -/
theorem exists_checkpoint_beside (hcalm : c.Calm) (what : String) (hs : s.Beside s') :
    ∃ t', checkpoint c what s' = .ok () t' ∧ s.Beside t' := by
  have hpass : checkpoint c what s' = .ok () { s' with surroundings := { s'.surroundings with
      cancelled := false, state := (c.meanwhile s'.surroundings.state).2 } } := by
    unfold checkpoint
    simp only [hs.quiet', hcalm.meanwhile]
    rfl
  exact ⟨_, hpass, hs.shelf, hs.calls, hs.quiet, rfl⟩

end Work

namespace Build

variable [Scalar R] {setup : Setup R σ} {lines stops done more : List (ScriptLine R)}
  {p p' q : Progress R} {s s' t u v : Session R σ} {track : Track R} {failure : Failure R}

/-- The tracks that play behind some commands are those that these never stop, by induction on the
script from its end. -/
theorem descriptions_of_commands (hc : checkStructure (done ++ more) = .ok ())
    (h : commands setup done v = .ok p t) : p.live.map (·.description) = neverStopped done := by
  induction done using List.reverseRecOn generalizing p t more with
  | nil =>
      cases h
      rfl
  | append_singleton done line ih =>
      obtain ⟨p', u, hdone, hstep⟩ := commands_concat_eq_ok.mp h
      rw [List.append_assoc] at hc
      rw [live_of_step hstep, neverStopped_concat, ← ih hc hdone]
      obtain ⟨number, command⟩ := line
      cases command with
      | backgroundStart pan description => exact List.map_append
      | backgroundStop description =>
          have hnodup := nodup_live hc hdone
          rw [liveAfter, map_eraseP, lastingAfter, hnodup.erase_eq_filter]
          simp [bne, beq_eq_decide]
      | _ => rfl

/-- Two builds agree on all that decides what their tracks are given. -/
structure Progress.Agrees (p p' : Progress R) : Prop where
  clock : p'.clock = p.clock
  segments : p'.segments = p.segments
  loops : p'.loops = p.loops

section Steady

variable (hcalm : setup.collaborators.Calm) (hprobes : setup.collaborators.ProbesSteadily)

include hcalm hprobes

theorem measure_beside (path : String) (line line' : Nat) (hs : s.Beside s') :
    Work.EndsBeside Eq (measure setup path line s) (measure setup path line' s') := by
  refine ((Work.probe_beside hcalm hprobes path hs).atLine line line').bind ?_
  rintro secs _ t t' rfl ht
  by_cases hl : Scalar.IsLength secs
  · simp only [if_pos hl]
    exact .ok rfl ht
  · simp only [if_neg hl]
    exact .error ht

theorem loopLength_beside (hp : p.Agrees p') (path : String) (line line' : Nat)
    (hs : s.Beside s') :
    Work.EndsBeside (fun a a' => a'.1 = a.1 ∧ a.2.Agrees a'.2 ∧ a'.2.live = p'.live)
      (loopLength setup p path line s) (loopLength setup p' path line' s') := by
  unfold loopLength
  rw [hp.loops]
  cases p.loops.lookup path with
  | some length => exact .ok ⟨rfl, hp, rfl⟩ hs
  | none =>
      refine (measure_beside hcalm hprobes path line line' hs).bind ?_
      rintro length _ t t' rfl ht
      exact .ok ⟨rfl, ⟨hp.clock, hp.segments, rfl⟩, rfl⟩ ht

theorem flush_beside (hp : p.Agrees p') (track : Track R) (line line' : Nat)
    (hs : s.Beside s') :
    Work.EndsBeside (fun q q' => q.Agrees q' ∧ q'.live = p'.live)
      (flush setup p track line s) (flush setup p' track line' s') := by
  unfold flush
  rw [hp.clock]
  by_cases hspan : p.clock - track.start ≤ Scalar.millionth
  · simp only [if_pos hspan]
    exact .ok ⟨hp, rfl⟩ hs
  · simp only [if_neg hspan]
    refine (loopLength_beside hcalm hprobes hp track.path line line' hs).bind ?_
    rintro ⟨length, q⟩ ⟨length', q'⟩ t t' ⟨hlength, hq, hlive⟩ ht
    obtain rfl : length' = length := hlength
    cases htile : tileFrom length' track.start (p.clock - track.start) with
    | ok tiles => exact .ok ⟨⟨hq.clock, congrArg (· ++ _) hq.segments, hq.loops⟩, hlive⟩ ht
    | error failure => exact .error ht

/-- A stop of the first track that plays does what the end of the script does with this track. -/
theorem stop_beside {rest : List (Track R)} (hp : p.Agrees p') (hlive : p'.live = track :: rest)
    (number : Nat) (hs : s.Beside s') :
    Work.EndsBeside (fun q q' => q.Agrees q' ∧ q'.live = rest) (flushLeft setup p track s)
      (step setup p' ⟨number, .backgroundStop track.description⟩ s') := by
  obtain ⟨t', hpass, ht'⟩ := Work.exists_checkpoint_beside hcalm "timeline build" hs
  have hfound : p'.live.find? (·.description = track.description) = some track := by
    simp [hlive]
  have hdrop : (p'.drop track.description).live = rest := by
    simp [Progress.drop, hlive]
  have hagrees : p.Agrees (p'.drop track.description) := ⟨hp.clock, hp.segments, hp.loops⟩
  unfold step
  rw [Work.bind_apply_of_ok (Work.atLine_eq_ok.mpr hpass), apply_of_rechecked rfl,
    perform_backgroundStop_eq, hfound]
  refine (flush_beside hcalm hprobes hagrees track track.line number ht').bind ?_
  rintro q q' u u' ⟨hq, hlive'⟩ hu
  exact .ok ⟨⟨hq.clock, hq.segments, hq.loops⟩, hlive'.trans hdrop⟩ hu

/-- Stops of all tracks that play do what the end of the script does, by induction on the tracks. -/
theorem stops_beside {tracks : List (Track R)} (hp : p.Agrees p') (hlive : p'.live = tracks)
    (hstops : AreStops (tracks.map (·.description)) stops) (hs : s.Beside s') :
    Work.EndsBeside (fun q q' => q.Agrees q' ∧ q'.live = []) (tracks.foldlM (flushLeft setup) p s)
      (stops.foldlM (step setup) p' s') := by
  induction tracks generalizing p p' stops s s' with
  | nil =>
      obtain rfl : stops = [] := by simpa [AreStops] using hstops
      exact .ok ⟨hp, hlive⟩ hs
  | cons track rest ih =>
      obtain ⟨⟨number, command⟩, later, rfl, rfl, hlater⟩ := List.map_eq_cons_iff.mp hstops
      rw [List.foldlM_cons, List.foldlM_cons]
      refine (stop_beside hcalm hprobes hp hlive number hs).bind ?_
      rintro q q' t t' ⟨hq, hrest⟩ ht
      exact ih hq hrest hlater ht

/-- Behind the same commands, the stops that are written out and those of the end of the script
leave the same. -/
theorem run_beside (hc : checkStructure lines = .ok ())
    (hstops : AreStops (neverStopped lines) stops) (hs : s.surroundings.cancelled = false) :
    Work.EndsBeside Progress.Agrees (run setup lines s) (run setup (lines ++ stops) s) := by
  have hrun : run setup (lines ++ stops)
      = commands setup lines >>= fun p => stops.foldlM (step setup) p >>= flushAll setup := by
    show commands setup (lines ++ stops) >>= flushAll setup = _
    rw [commands_append, bind_assoc]
  have hquiet := upholds_foldlM (upholds_quiet hcalm) (upholds_step (upholds_quiet hcalm)) lines
    { clock := Scalar.zero } s hs
  rw [hrun]
  show Work.EndsBeside Progress.Agrees ((commands setup lines >>= flushAll setup) s) _
  cases hcommands : commands setup lines s with
  | error failure t =>
      rw [Work.bind_apply_of_error hcommands, Work.bind_apply_of_error hcommands]
      exact .error (.refl (Work.behind_of_error hcommands ▸ hquiet))
  | ok p t =>
      rw [Work.bind_apply_of_ok hcommands, Work.bind_apply_of_ok hcommands]
      have hbegin : ({ p with live := [] } : Progress R).Agrees p := ⟨rfl, rfl, rfl⟩
      have hlawful : checkStructure (lines ++ []) = .ok () := by rwa [List.append_nil]
      rw [← descriptions_of_commands hlawful hcommands] at hstops
      have hfolds := stops_beside hcalm hprobes hbegin rfl hstops
        (.refl (Work.behind_of_ok hcommands ▸ hquiet))
      unfold flushAll
      generalize p.live.foldlM (flushLeft setup) { p with live := [] } t = result at hfolds ⊢
      generalize hwritten : stops.foldlM (step setup) p t = result' at hfolds
      cases hfolds with
      | error hends =>
          rw [Work.bind_apply_of_error hwritten]
          exact .error hends
      | ok h hends =>
          obtain ⟨hq, hnone⟩ := h
          rw [Work.bind_apply_of_ok hwritten, hnone]
          exact .ok ⟨hq.clock, hq.segments, hq.loops⟩ hends

theorem conclude_beside (hc : checkStructure lines = .ok ())
    (hstops : AreStops (neverStopped lines) stops) (hs : s.surroundings.cancelled = false) :
    Work.EndsBeside (fun result result' => result'.1 = result.1) (conclude setup lines s)
      (conclude setup (lines ++ stops) s) := by
  refine (run_beside hcalm hprobes hc hstops hs).bind ?_
  intro q q' t t' hq ht
  have htimeline : q'.timeline = q.timeline := by
    unfold Progress.timeline
    rw [hq.clock, hq.segments]
  cases hfinish : finish q with
  | ok result =>
      obtain ⟨timeline, report⟩ := result
      obtain ⟨rfl, hcheck, -⟩ := finish_eq_ok hfinish
      rw [finish_of_check (htimeline ▸ hcheck)]
      exact .ok htimeline ht
  | error failure =>
      have hcheck := finish_eq_error hfinish
      cases hfinish' : finish q' with
      | error failure' => exact .error ht
      | ok result =>
          obtain ⟨-, hcheck', -⟩ := finish_eq_ok hfinish'
          rw [htimeline, hcheck] at hcheck'
          cases hcheck'

end Steady

/-- The tracks that are left are counted in the script. -/
theorem length_neverStopped (hc : checkStructure done = .ok ())
    (h : commands setup done v = .ok p t) :
    done.countP ScriptLine.startsTrack
      = done.countP ScriptLine.stopsTrack + (neverStopped done).length := by
  have hlawful : checkStructure (done ++ []) = .ok () := by rwa [List.append_nil]
  rw [countP_startsTrack hlawful h, ← descriptions_of_commands hlawful h, List.length_map]

end Build

section Builds

variable [Scalar R] {setup : Setup R σ} {lines stops : List (ScriptLine R)} {s : Session R σ}

theorem build_beside (hcalm : setup.collaborators.Calm)
    (hprobes : setup.collaborators.ProbesSteadily) (hstops : AreStops (neverStopped lines) stops)
    (hs : s.surroundings.cancelled = false) :
    Work.EndsBeside (fun result result' => result'.1 = result.1) (build setup lines s)
      (build setup (lines ++ stops) s) := by
  cases hc : checkStructure lines with
  | error failure =>
      rw [build_of_refused hc, build_of_refused (checkStructure_append_of_refused hc stops)]
      exact .error (.refl hs)
  | ok _ =>
      have hc' := checkStructure_append_stops hstops hc
      by_cases hw : 1 < setup.workers
      · have hprefetch : Build.prefetch setup (lines ++ stops) = Build.prefetch setup lines := by
          unfold Build.prefetch
          rw [requests_append_stops hstops]
        have hquiet := Build.upholds_prefetch (Build.upholds_quiet hcalm) lines s hs
        rw [build_of_many_workers hc hw, build_of_many_workers hc' hw, hprefetch]
        cases hahead : Build.prefetch setup lines s with
        | error failure t =>
            rw [Work.bind_apply_of_error hahead, Work.bind_apply_of_error hahead]
            exact .error (.refl (Work.behind_of_error hahead ▸ hquiet))
        | ok _ t =>
            rw [Work.bind_apply_of_ok hahead, Work.bind_apply_of_ok hahead]
            exact Build.conclude_beside hcalm hprobes hc hstops
              (Work.behind_of_ok hahead ▸ hquiet)
      · rw [build_of_one_worker hc hw, build_of_one_worker hc' hw]
        exact Build.conclude_beside hcalm hprobes hc hstops hs

/-- What a build with the stops reports is what the build without them reports, with its last tracks
counted among the commands. -/
theorem report_of_stops {timeline : Timeline R} {report report' : Report} {t t' : Session R σ}
    (hstops : AreStops (neverStopped lines) stops)
    (h : build setup lines s = .ok (timeline, report) t)
    (h' : build setup (lines ++ stops) s = .ok (timeline, report') t') :
    report.implicitFlushes = (neverStopped lines).length ∧
      report' = { report with
        commands := report.commands + (neverStopped lines).length
        implicitFlushes := 0 } := by
  obtain ⟨hc, v, -, hconclude⟩ := build_eq_ok_iff.mp h
  obtain ⟨p, u, q, hcommands, -, -⟩ := Build.conclude_eq_ok_iff.mp hconclude
  have hcount := Build.length_neverStopped hc hcommands
  obtain ⟨hlength, hstarts, hends⟩ := hstops.countP
  obtain ⟨-, rfl⟩ := Build.report_of_build h
  obtain ⟨-, rfl⟩ := Build.report_of_build h'
  constructor
  · show lines.countP ScriptLine.startsTrack - lines.countP ScriptLine.stopsTrack = _
    omega
  · rw [List.length_append, List.countP_append, List.countP_append, hlength, hstarts, hends,
      hcount, Nat.add_zero, Nat.sub_self]

/-- **The end of a script is a stop of each track that still plays.** Nobody gives up, and the
prober answers by the file and the disk. Then a script whose remaining tracks are stopped by lines
at its end, in the order of their starts, is built if and only if the script without these lines is.
Both builds make the same calls and leave the same store, whether they succeed or fail. If they
succeed their timelines are the same, and the one reports as commands what the other reports as
tracks that the end has stopped. -/
theorem end_is_a_stop (setup : Setup R σ) (hcalm : setup.collaborators.Calm)
    (hprobes : setup.collaborators.ProbesSteadily) (lines stops : List (ScriptLine R))
    (hstops : AreStops (neverStopped lines) stops) (s : Session R σ)
    (hs : s.surroundings.cancelled = false) :
    ((∃ result t, build setup (lines ++ stops) s = .ok result t) ↔
      ∃ result t, build setup lines s = .ok result t) ∧
    (∀ timeline report t, build setup lines s = .ok (timeline, report) t →
      report.implicitFlushes = (neverStopped lines).length ∧
        ∃ t', build setup (lines ++ stops) s = .ok (timeline, { report with
          commands := report.commands + (neverStopped lines).length
          implicitFlushes := 0 }) t') ∧
    ((build setup (lines ++ stops)).behind s).surroundings.calls
      = ((build setup lines).behind s).surroundings.calls ∧
    ((build setup (lines ++ stops)).behind s).shelf = ((build setup lines).behind s).shelf := by
  have hends := build_beside hcalm hprobes hstops hs
  refine ⟨?_, fun timeline report t h => ?_, hends.behind.calls, hends.behind.shelf⟩
  · generalize build setup lines s = result at hends ⊢
    generalize build setup (lines ++ stops) s = result' at hends ⊢
    cases hends with
    | ok => exact iff_of_true ⟨_, _, rfl⟩ ⟨_, _, rfl⟩
    | error => exact iff_of_false nofun nofun
  · rw [h] at hends
    generalize h' : build setup (lines ++ stops) s = result' at hends
    cases hends with
    | @ok _ result _ t' hsame =>
        obtain ⟨timeline', report'⟩ := result
        obtain rfl : timeline' = timeline := hsame
        obtain ⟨hleft, hreport⟩ := report_of_stops hstops h h'
        exact ⟨hleft, t', by rw [hreport]⟩

end Builds

theorem probesSteadily_constant (speech sound : Except (Failure Float) ByteArray)
    (length : Except (Failure Float) Float) :
    (constantCollaborators speech sound length).ProbesSteadily := fun _ _ _ _ => rfl

/-- It rains, the wind rises, and the rain stops and comes back. -/
def stormScript : List (ScriptLine Float) :=
  [⟨1, .backgroundStart 0 "rain"⟩, ⟨2, .wait 1⟩, ⟨3, .backgroundStart 0 "wind"⟩, ⟨4, .wait 1⟩,
    ⟨5, .backgroundStop "rain"⟩, ⟨6, .backgroundStart 0 "rain"⟩, ⟨7, .wait 3⟩]

/-- The stops that this script leaves to its end. -/
def stormStops : List (ScriptLine Float) :=
  [⟨8, .backgroundStop "wind"⟩, ⟨9, .backgroundStop "rain"⟩]

/-- At the end of the storm the wind stops first, and then the rain that has come back. -/
theorem end_is_a_stop_storm :
    AreStops (neverStopped stormScript) stormStops ∧
    ∃ timeline t t', build steadySetup stormScript freshSession = .ok (timeline, ⟨7, 5, 3, 2⟩) t ∧
      build steadySetup (stormScript ++ stormStops) freshSession
        = .ok (timeline, ⟨9, 5, 3, 0⟩) t' := by
  have hstops : AreStops (neverStopped stormScript) stormStops := rfl
  have hanswer : ((build steadySetup stormScript).answer? freshSession).map (·.2)
      = some ⟨7, 5, 3, 2⟩ := by decide +kernel
  obtain ⟨⟨timeline, report⟩, hresult, hreport⟩ := Option.map_eq_some_iff.mp hanswer
  obtain rfl : report = ⟨7, 5, 3, 2⟩ := hreport
  obtain ⟨t, hbuild⟩ := Work.answer?_eq_some_iff.mp hresult
  obtain ⟨-, hsame, -⟩ := end_is_a_stop steadySetup (calm_constant _ _ _)
    (probesSteadily_constant _ _ _) stormScript stormStops hstops freshSession rfl
  obtain ⟨-, t', hbuild'⟩ := hsame timeline _ t hbuild
  exact ⟨hstops, timeline, t, t', hbuild, hbuild'⟩

end Soundstage
