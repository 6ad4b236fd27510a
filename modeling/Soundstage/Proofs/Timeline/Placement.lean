import Soundstage.Proofs.Asset.Ensure
import Soundstage.Proofs.Timeline.Stages
import Soundstage.Proofs.Timeline.Structure
import Soundstage.Proofs.Timeline.Tracks

/-!
# Builds place clips where they belong

`Build.run` goes through a script with a clock, a list of tracks and a memory of measured loops.
`Build.Follows` says where a build stands that has run the given lines: its clock, its clips and its
tracks are those that `Clips` gives these lines without running them. Every command keeps this, so a
build that succeeds has the timeline that the placement of the script describes.
-/

namespace Soundstage

variable {R σ : Type}

/-- The lengths that the probe answers are given by the path alone. -/
def Collaborators.MeasuresBy (c : Collaborators R σ) (length : String → R) : Prop :=
  ∀ path disk cancelled state secs,
    (c.probe path disk cancelled state).outcome = .ok secs → secs = length path

/-- What placement has to know of the assets of a setup. -/
def Setup.clips (setup : Setup R σ) (length : String → R) : Clips R :=
  ⟨setup.store.pathFor, length⟩

@[simp] theorem Setup.clips_path (setup : Setup R σ) (length : String → R) (key : AssetKey) :
    (setup.clips length).path key = setup.store.pathFor key := rfl

@[simp] theorem Setup.clips_length (setup : Setup R σ) (length : String → R) :
    (setup.clips length).length = length := rfl

namespace Build

variable [Scalar R] {setup : Setup R σ} {length : String → R} {s t : Session R σ}

omit [Scalar R] in
theorem materialize_eq_ok {r : Request R} {path : String}
    (h : materialize setup r s = .ok path t) : path = setup.store.pathFor r.key := by
  unfold materialize at h
  match he : setup.store.ensure r.key (setup.collaborators.generate r.key r.hint) s.shelf
      s.surroundings with
  | (.ok found, shelf, surroundings) =>
      rw [he] at h
      cases h
      exact (Store.ensures he).eq_pathFor
  | (.error failure, shelf, surroundings) =>
      rw [he] at h
      cases h

theorem measure_eq_ok (hm : setup.collaborators.MeasuresBy length) {path : String} {line : Nat}
    {secs : R} (h : measure setup path line s = .ok secs t) : secs = length path := by
  obtain ⟨found, u, hp, hl⟩ := Work.bind_eq_ok.mp h
  rw [Work.atLine_eq_ok] at hp
  have hfound : found = length path := by
    unfold Work.probe at hp
    apply hm path s.shelf.disk s.surroundings.cancelled s.surroundings.state
    split at hp
    · next secs' surroundings ha =>
        cases hp
        exact congrArg Prod.fst ha
    · cases hp
  split at hl
  · cases hl
    exact hfound
  · cases hl

/-- The lengths that a build remembers are right. -/
def Progress.Remembers (p : Progress R) (length : String → R) : Prop :=
  ∀ path secs, p.loops.lookup path = some secs → secs = length path

theorem loopLength_eq_ok (hm : setup.collaborators.MeasuresBy length) {p q : Progress R}
    (hp : p.Remembers length) {path : String} {line : Nat} {secs : R}
    (h : loopLength setup p path line s = .ok (secs, q) t) :
    secs = length path ∧ q.Remembers length ∧ q = { p with loops := q.loops } := by
  unfold loopLength at h
  cases hk : p.loops.lookup path with
  | some known =>
      simp only [hk] at h
      cases h
      exact ⟨hp path _ hk, hp, rfl⟩
  | none =>
      simp only [hk] at h
      obtain ⟨found, u, hf, hq⟩ := Work.bind_eq_ok.mp h
      have hfound := measure_eq_ok hm hf
      cases hq
      refine ⟨hfound, ?_, rfl⟩
      intro other secs' hs
      simp only [List.lookup_cons] at hs
      split at hs
      · next heq =>
          cases hs
          rw [hfound, beq_iff_eq.mp heq]
      · exact hp other secs' hs

/-- Placing a track adds what covers it and changes nothing else but the remembered lengths. -/
theorem flush_eq_ok (hm : setup.collaborators.MeasuresBy length) {p q : Progress R}
    (hp : p.Remembers length) {track : Track R} {line : Nat}
    (hpath : track.path = (setup.clips length).path ⟨.sound, track.description⟩)
    (h : flush setup p track line s = .ok q t) :
    q.segments.toList = p.segments.toList
        ++ (setup.clips length).cover track.description track.pan track.start p.clock ∧
      q.Remembers length ∧ q = { p with segments := q.segments, loops := q.loops } := by
  unfold flush at h
  unfold Clips.cover
  by_cases hspan : p.clock - track.start ≤ Scalar.millionth
  · simp only [if_pos hspan] at h ⊢
    cases h
    exact ⟨by simp, hp, rfl⟩
  · simp only [if_neg hspan] at h ⊢
    obtain ⟨⟨secs, p'⟩, u, hl, ht⟩ := Work.bind_eq_ok.mp h
    obtain ⟨hsecs, hp', hq⟩ := loopLength_eq_ok hm hp hl
    subst hsecs
    have hlength : (setup.clips length).length
        ((setup.clips length).path ⟨.sound, track.description⟩) = length track.path := by
      rw [← hpath]
      rfl
    rw [hlength]
    cases htile : tileFrom (length track.path) track.start (p.clock - track.start) with
    | error failure =>
        simp only [htile] at ht
        cases ht
    | ok tiles =>
        simp only [htile] at ht
        cases ht
        rw [hq]
        exact ⟨by simp [hpath], hp', rfl⟩

omit [Scalar R] in
/-- As no track plays twice, removing the first one of a description removes all of it. -/
theorem eraseP_eq_filter {tracks : List (Track R)} (h : (tracks.map (·.description)).Nodup)
    (description : String) :
    tracks.eraseP (·.description = description)
      = tracks.filter fun t => !decide (description = t.description) := by
  induction tracks with
  | nil => rfl
  | cons first rest ih =>
      rw [List.map_cons, List.nodup_cons] at h
      by_cases hd : first.description = description
      · have hrest : ∀ t ∈ rest, description ≠ t.description := by
          intro t ht heq
          exact h.1 (by rw [hd, heq]; exact List.mem_map_of_mem ht)
        rw [List.eraseP_cons_of_pos (by simpa using hd),
          List.filter_cons_of_neg (by simpa using hd.symm)]
        exact (List.filter_eq_self.mpr (by simpa using hrest)).symm
      · rw [List.eraseP_cons_of_neg (by simpa using hd),
          List.filter_cons_of_pos (by simpa using Ne.symm hd), ih h.2]

omit [Scalar R] in
theorem map_eraseP (tracks : List (Track R)) (description : String) :
    (tracks.eraseP (·.description = description)).map (·.description)
      = (tracks.map (·.description)).erase description := by
  induction tracks with
  | nil => rfl
  | cons first rest ih =>
      by_cases hd : first.description = description
      · rw [List.eraseP_cons_of_pos (by simpa using hd), List.map_cons, hd, List.erase_cons_head]
      · rw [List.eraseP_cons_of_neg (by simpa using hd), List.map_cons, List.map_cons, ih,
          List.erase_cons_tail (by simpa using hd)]

/-- Where a build stands that has run the given lines. -/
structure Follows (clips : Clips R) (done : List (ScriptLine R)) (p : Progress R) : Prop where
  clock : p.clock = clips.clockAt done done.length
  segments : p.segments.toList = done.zipIdx.flatMap fun (line, i) => clips.placedAt done i line
  live : p.live = clips.tracksAfter done
  /-- No track plays twice. -/
  distinct : (p.live.map (·.description)).Nodup
  /-- A track that plays is one of the latest start of its description. -/
  latest : ∀ track ∈ p.live, ∃ i ≤ done.length,
    Clips.latestStart? done track.description done.length = some (i, track.pan) ∧
      clips.clockAt done i = track.start
  remembers : p.Remembers clips.length

theorem Follows.initial (clips : Clips R) : Follows clips [] { clock := Scalar.zero } where
  clock := rfl
  segments := rfl
  live := rfl
  distinct := List.nodup_nil
  latest := by simp
  remembers := by simp [Progress.Remembers]

/-- A line that neither starts nor stops a track places its clips and moves the clock. -/
theorem Follows.pass {clips : Clips R} {done : List (ScriptLine R)} {p q : Progress R}
    (hf : Follows clips done p) {line : ScriptLine R}
    (hstart : ∀ description, Clips.startPan? description line = none)
    (hstop : ∀ description, Clips.isStop description line = false)
    (hclock : q.clock = clips.clockAfter p.clock line)
    (hsegments : q.segments.toList = p.segments.toList ++ clips.placedAt done done.length line)
    (hlive : q.live = p.live) (hloops : q.loops = p.loops) :
    Follows clips (done ++ [line]) q where
  clock := by rw [hclock, hf.clock, clips.clockAt_concat]
  segments := by rw [hsegments, hf.segments, clips.flatMap_placedAt_concat]
  live := by
    have hnone : clips.trackAt? (done ++ [line]) done.length line = none := by
      unfold Clips.trackAt?
      cases hc : line.command with
      | backgroundStart pan description =>
          have := hstart description
          simp [Clips.startPan?, hc] at this
      | _ => rfl
    rw [hlive, hf.live, clips.tracksAfter_concat, hnone]
    simp [hstop]
  distinct := by rw [hlive]; exact hf.distinct
  latest := by
    intro track htrack
    rw [hlive] at htrack
    obtain ⟨i, hi, hlatest, hclock⟩ := hf.latest track htrack
    refine ⟨i, by simp; omega, ?_, ?_⟩
    · rw [Clips.latestStart?_concat, hstart]
      exact hlatest
    · rw [clips.clockAt_append [line] hi, hclock]
  remembers := by
    intro path secs h
    rw [hloops] at h
    exact hf.remembers path secs h

/-- A started track is a new one behind those that play. -/
theorem Follows.start {clips : Clips R} {done : List (ScriptLine R)} {p q : Progress R}
    (hf : Follows clips done p) {line : Nat} {pan : R} {description : String}
    (hnew : description ∉ p.live.map (·.description))
    (hlive : q.live = p.live
      ++ [⟨description, pan, clips.path ⟨.sound, description⟩, p.clock, line⟩])
    (hq : q = { p with live := q.live, report := q.report }) :
    Follows clips (done ++ [⟨line, .backgroundStart pan description⟩]) q where
  clock := by
    rw [clips.clockAt_concat, ← hf.clock, hq]
    rfl
  segments := by
    rw [clips.flatMap_placedAt_concat, ← hf.segments, hq]
    simp [Clips.placedAt]
  live := by
    have htrack : clips.trackAt? (done ++ [⟨line, .backgroundStart pan description⟩]) done.length
        ⟨line, .backgroundStart pan description⟩
        = some ⟨description, pan, clips.path ⟨.sound, description⟩, p.clock, line⟩ := by
      simp [Clips.trackAt?, Clips.isStop, hf.clock,
        clips.clockAt_append _ (Nat.le_refl done.length)]
    rw [hlive, clips.tracksAfter_concat, htrack, hf.live]
    simp [Clips.isStop]
  distinct := by
    rw [hlive, List.map_append, List.nodup_append]
    refine ⟨hf.distinct, by simp, ?_⟩
    intro a ha b hb hab
    simp only [List.map_cons, List.map_nil, List.mem_singleton] at hb
    exact hnew (hb ▸ hab ▸ ha)
  latest := by
    intro track htrack
    rw [hlive, List.mem_append, List.mem_singleton] at htrack
    rcases htrack with hold | rfl
    · obtain ⟨i, hi, hlatest, hclock⟩ := hf.latest track hold
      have hne : description ≠ track.description := by
        rintro rfl
        exact hnew (List.mem_map_of_mem hold)
      refine ⟨i, by simp; omega, ?_, ?_⟩
      · rw [Clips.latestStart?_concat]
        simp only [Clips.startPan?, if_neg hne]
        exact hlatest
      · rw [clips.clockAt_append _ hi, hclock]
    · refine ⟨done.length, by simp, ?_, ?_⟩
      · rw [Clips.latestStart?_concat]
        simp [Clips.startPan?]
      · rw [clips.clockAt_append _ (Nat.le_refl _), hf.clock]
  remembers := by
    rw [hq]
    exact hf.remembers

/-- A stop places what covers the track from its latest start, and ends the track. -/
theorem Follows.stop {clips : Clips R} {done : List (ScriptLine R)} {p q : Progress R}
    (hf : Follows clips done p) {line : Nat} {track : Track R} (htrack : track ∈ p.live)
    (hlive : q.live = p.live.eraseP (·.description = track.description))
    (hsegments : q.segments.toList = p.segments.toList
      ++ clips.cover track.description track.pan track.start p.clock)
    (hclock : q.clock = p.clock) (hremembers : q.Remembers clips.length) :
    Follows clips (done ++ [⟨line, .backgroundStop track.description⟩]) q where
  clock := by
    rw [clips.clockAt_concat, hclock, hf.clock]
    rfl
  segments := by
    obtain ⟨i, -, hlatest, hstart⟩ := hf.latest track htrack
    rw [hsegments, clips.flatMap_placedAt_concat, hf.segments]
    simp only [Clips.placedAt, hlatest, hstart, hf.clock]
  live := by
    rw [hlive, eraseP_eq_filter hf.distinct, hf.live, clips.tracksAfter_concat]
    simp [Clips.trackAt?, Clips.isStop]
  distinct := by
    rw [hlive]
    exact (List.eraseP_sublist.map _).nodup hf.distinct
  latest := by
    intro other hother
    rw [hlive] at hother
    obtain ⟨i, hi, hlatest, hclock⟩ := hf.latest other (List.mem_of_mem_eraseP hother)
    refine ⟨i, by simp; omega, ?_, ?_⟩
    · rw [Clips.latestStart?_concat]
      exact hlatest
    · rw [clips.clockAt_append _ hi, hclock]
  remembers := hremembers

/-- The check of the structure and the build agree on which tracks play. -/
def Plays (playing : List String) (p : Progress R) : Prop :=
  playing.Perm (p.live.map (·.description))

/-- One command of a checked script keeps a build where the placement says. -/
theorem Follows.apply {done : List (ScriptLine R)} {p q : Progress R} {line : ScriptLine R}
    {playing playing' : List String} (hm : setup.collaborators.MeasuresBy length)
    (hf : Follows (setup.clips length) done p) (hplays : Plays playing p)
    (hcheck : ScriptLine.Changes playing playing' line.command)
    (h : Build.apply setup p line s = .ok q t) :
    Follows (setup.clips length) (done ++ [line]) q ∧ Plays playing' q := by
  obtain ⟨-, h⟩ := apply_eq_ok_iff.mp h
  obtain ⟨number, command⟩ := line
  cases command with
  | voice pan phrase =>
      obtain ⟨path, u, hpath, h⟩ := Work.bind_eq_ok.mp h
      obtain ⟨secs, v, hsecs, h⟩ := Work.bind_eq_ok.mp h
      cases h
      obtain rfl := measure_eq_ok hm hsecs
      obtain rfl := materialize_eq_ok hpath
      subst hcheck
      refine ⟨hf.pass (fun _ => rfl) (fun _ => rfl) rfl ?_ rfl rfl, hplays⟩
      simp only [Progress.play, Array.toList_push, Clips.placedAt, hf.clock, Setup.clips_path,
        Setup.clips_length]
  | sound pan duration description =>
      obtain ⟨path, u, hpath, h⟩ := Work.bind_eq_ok.mp h
      cases h
      obtain rfl := materialize_eq_ok hpath
      subst hcheck
      refine ⟨hf.pass (fun _ => rfl) (fun _ => rfl) rfl ?_ rfl rfl, hplays⟩
      simp only [Progress.play, Array.toList_push, Clips.placedAt, hf.clock, Setup.clips_path]
  | backgroundStart pan description =>
      obtain ⟨path, u, hpath, h⟩ := Work.bind_eq_ok.mp h
      obtain ⟨hnew, rfl⟩ := hcheck
      cases h
      obtain rfl := materialize_eq_ok hpath
      refine ⟨hf.start (fun hmem => hnew (hplays.mem_iff.mpr hmem)) rfl rfl, ?_⟩
      unfold Plays
      rw [List.map_append]
      exact (List.Perm.cons _ hplays).trans (List.perm_append_singleton _ _).symm
  | backgroundStop description =>
      obtain ⟨hmem, rfl⟩ := hcheck
      unfold perform at h
      cases hfind : p.live.find? (·.description = description) with
      | none =>
          simp only [hfind] at h
          cases h
      | some track =>
          simp only [hfind] at h
          have htrack : track ∈ p.live := List.mem_of_find?_eq_some hfind
          have hd : track.description = description := by
            simpa using List.find?_some hfind
          subst hd
          have hpath := (setup.clips length).path_of_mem_tracksAfter (hf.live ▸ htrack)
          have hrest : ({ p with live := p.live.eraseP (·.description = track.description) } :
              Progress R).Remembers length := hf.remembers
          obtain ⟨hsegments, hremembers, hq⟩ := flush_eq_ok hm hrest hpath h
          refine ⟨hf.stop htrack (by rw [hq]) hsegments (by rw [hq]) hremembers, ?_⟩
          unfold Plays
          rw [hq, map_eraseP]
          exact List.Perm.erase _ hplays
  | wait duration =>
      subst hcheck
      cases h
      exact ⟨hf.pass (fun _ => rfl) (fun _ => rfl) rfl (by simp [Clips.placedAt]) rfl rfl, hplays⟩

theorem Follows.count {clips : Clips R} {done : List (ScriptLine R)} {p : Progress R}
    (hf : Follows clips done p) (report : Report) :
    Follows clips done { p with report := report } :=
  ⟨hf.clock, hf.segments, hf.live, hf.distinct, hf.latest, hf.remembers⟩

/-- All commands of a checked script, by induction on those that are left. -/
theorem Follows.foldlM_step (hm : setup.collaborators.MeasuresBy length)
    {rest done : List (ScriptLine R)} {p q : Progress R} {playing final : List String}
    (hf : Follows (setup.clips length) done p) (hplays : Plays playing p)
    (hcheck : rest.foldlM ScriptLine.playingAfter playing = .ok final)
    (h : rest.foldlM (step setup) p s = .ok q t) :
    Follows (setup.clips length) (done ++ rest) q := by
  induction rest generalizing done p playing s with
  | nil =>
      cases h
      rwa [List.append_nil]
  | cons line rest ih =>
      rw [List.foldlM_cons] at h hcheck
      cases hc : ScriptLine.playingAfter playing line with
      | error failure =>
          rw [hc] at hcheck
          cases hcheck
      | ok playing' =>
          rw [hc] at hcheck
          obtain ⟨-, hchanges⟩ := ScriptLine.playingAfter_eq_ok_iff.mp hc
          obtain ⟨p', u, hstep, hrest⟩ := Work.bind_eq_ok.mp h
          obtain ⟨p'', v, happly, hp'⟩ := step_eq_ok hstep
          obtain ⟨hf', hplays'⟩ := hf.apply hm hplays hchanges happly
          have hplays'' : Plays playing' p' := by
            rw [hp']
            exact hplays'
          have hdone : done ++ line :: rest = (done ++ [line]) ++ rest := by simp
          rw [hdone]
          exact ih (hp' ▸ hf'.count p'.report) hplays'' hcheck hrest

/-- The end of a script places what covers the tracks that are left, in their order. -/
theorem foldlM_flushLeft (hm : setup.collaborators.MeasuresBy length) {tracks : List (Track R)}
    {p q : Progress R} (hp : p.Remembers length)
    (hpath : ∀ track ∈ tracks,
      track.path = (setup.clips length).path ⟨.sound, track.description⟩)
    (h : tracks.foldlM (flushLeft setup) p s = .ok q t) :
    q.clock = p.clock ∧ q.segments.toList = p.segments.toList ++ tracks.flatMap fun track =>
      (setup.clips length).cover track.description track.pan track.start p.clock := by
  induction tracks generalizing p s with
  | nil =>
      cases h
      simp
  | cons track rest ih =>
      rw [List.foldlM_cons] at h
      obtain ⟨p', u, hleft, hrest⟩ := Work.bind_eq_ok.mp h
      obtain ⟨p'', hflush, hp'⟩ := flushLeft_eq_ok hleft
      obtain ⟨hsegments, hremembers, hp''⟩ :=
        flush_eq_ok hm hp (hpath track List.mem_cons_self) hflush
      have hclock : p'.clock = p.clock := by rw [hp', hp'']
      have hsegments' : p'.segments = p''.segments := by rw [hp']
      have hremembers' : p'.Remembers length := by
        rw [hp']
        exact hremembers
      have hother : ∀ other ∈ rest,
          other.path = (setup.clips length).path ⟨.sound, other.description⟩ :=
        fun other hmem => hpath other (List.mem_cons_of_mem _ hmem)
      obtain ⟨hclock', hrest'⟩ := ih hremembers' hother hrest
      refine ⟨hclock'.trans hclock, ?_⟩
      rw [hrest', List.flatMap_cons, ← List.append_assoc, ← hsegments, hsegments', hclock]

/-- A finished run has the clock and the clips of the placement of its script. -/
theorem run_eq_placement (hm : setup.collaborators.MeasuresBy length)
    {lines : List (ScriptLine R)} {p : Progress R} (hcheck : checkStructure lines = .ok ())
    (h : run setup lines s = .ok p t) :
    p.timeline = (setup.clips length).timeline lines := by
  obtain ⟨q, u, hcommands, hleft⟩ := Work.bind_eq_ok.mp h
  unfold checkStructure at hcheck
  cases hplaying : lines.foldlM ScriptLine.playingAfter [] with
  | error failure =>
      rw [hplaying] at hcheck
      cases hcheck
  | ok final =>
      have hf := (Follows.initial (setup.clips length)).foldlM_step hm (List.Perm.refl [])
        hplaying hcommands
      rw [List.nil_append] at hf
      obtain ⟨hclock, hsegments⟩ := foldlM_flushLeft hm (p := { q with live := [] }) hf.remembers
        (fun track htrack => (setup.clips length).path_of_mem_tracksAfter (hf.live ▸ htrack)) hleft
      rw [Progress.timeline, Clips.timeline, Clips.flatMap_placedAtEnd, ← hf.live, ← hf.segments,
        ← hf.clock, hclock, hsegments]

end Build

/-- **Reference semantics of a build.** Whatever the state of the store, the number of workers and
the rest that a session holds, a build that succeeds answers with the timeline that the placement
of its script describes, by the same operations on numbers. -/
theorem build_eq_placement [Scalar R] (setup : Setup R σ) (length : String → R)
    (hm : setup.collaborators.MeasuresBy length) (lines : List (ScriptLine R))
    (s t : Session R σ) (timeline : Timeline R) (report : Report)
    (h : build setup lines s = .ok (timeline, report) t) :
    timeline = (setup.clips length).timeline lines := by
  obtain ⟨hcheck, u, hconclude⟩ := build_eq_ok h
  obtain ⟨p, hrun, rfl, -, -⟩ := Build.conclude_eq_ok hconclude
  exact Build.run_eq_placement hm hcheck hrun

/-- The rain is placed at its stop: two whole copies of its loop and a half. -/
theorem build_eq_placement_rain :
    ∃ timeline report t,
      build steadySetup rainScript { surroundings := ⟨false, [], ()⟩ } = .ok (timeline, report) t ∧
        timeline = (steadySetup.clips fun _ => 2).timeline rainScript ∧
        timeline.segments.length = 4 := by
  have hcounts : (build steadySetup rainScript).counts? { surroundings := ⟨false, [], ()⟩ }
      = some ⟨0, 2⟩ := by decide +kernel
  obtain ⟨⟨timeline, report⟩, t, h, -⟩ := Work.counts?_eq_some_iff.mp hcounts
  have hm : steadySetup.collaborators.MeasuresBy fun _ => 2 := by
    intro path disk cancelled state secs hsecs
    cases hsecs
    rfl
  have heq := build_eq_placement steadySetup (fun _ => 2) hm rainScript _ t timeline report h
  refine ⟨timeline, report, t, h, heq, ?_⟩
  rw [heq]
  decide +kernel

end Soundstage
