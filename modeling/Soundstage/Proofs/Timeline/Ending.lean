import Soundstage.Proofs.Timeline.Live

/-!
# What becomes of the tracks of a build

A track that a line has started plays until the first later line that stops it, or else to the end
of the script. `Build.Ends` says with which clock that is and which clips are placed for the track
there. In a build that succeeds each start has such an end, whatever the collaborators answer, and
its clips cover the time in between.
-/

namespace Soundstage

variable {R σ : Type}

namespace Build

variable [Scalar R] {setup : Setup R σ} {lines before after : List (ScriptLine R)}
  {p q : Progress R} {s t u v : Session R σ} {number : Nat} {track : Track R}

/-- The clips that a track is given for the time up to a clock reading. -/
inductive Track.IsCovered (track : Track R) (finish : R) : List (Segment R) → Prop
  | noise (hspan : finish - track.start ≤ Scalar.millionth) : track.IsCovered finish []
  | tiled {loop : R} {tiles : List (Tile R)} (hspan : ¬ finish - track.start ≤ Scalar.millionth)
      (htiles : tileFrom loop track.start (finish - track.start) = .ok tiles) :
      track.IsCovered finish (track.clips tiles)

/-- All clips of a track are of its file and have its pan. -/
theorem Track.IsCovered.path_and_pan {finish : R} {placed : List (Segment R)}
    (h : track.IsCovered finish placed) :
    ∀ clip ∈ placed, clip.path = track.path ∧ clip.pan = track.pan := by
  cases h with
  | noise hspan => simp
  | tiled hspan htiles =>
      intro clip hclip
      obtain ⟨tile, -, rfl⟩ := List.mem_map.mp hclip
      exact ⟨rfl, rfl⟩

theorem isCovered_of_flush (h : flush setup p track number s = .ok q t) :
    q.clock = p.clock ∧ ∃ placed, q.segments.toList = p.segments.toList ++ placed ∧
      track.IsCovered p.clock placed := by
  rcases flush_eq_ok_iff.mp h with ⟨hspan, rfl, -⟩ | ⟨hspan, secs, p', tiles, hloop, htiles, rfl⟩
  · exact ⟨rfl, [], (List.append_nil _).symm, .noise hspan⟩
  · have hclock : p'.clock = p.clock := by
      rcases loopLength_eq_ok_iff.mp hloop with ⟨-, rfl, -⟩ | ⟨-, -, rfl⟩ <;> rfl
    exact ⟨hclock, track.clips tiles, by simp, .tiled hspan htiles⟩

/-- What is placed for a track that the end of the script stops. -/
theorem isCovered_of_flushLeft (h : flushLeft setup p track s = .ok q t) :
    q.clock = p.clock ∧ ∃ placed, q.segments.toList = p.segments.toList ++ placed ∧
      track.IsCovered p.clock placed := by
  obtain ⟨p', u, hflush, h⟩ := Work.bind_eq_ok.mp h
  cases h
  obtain ⟨hclock, placed, hplaced, hcovered⟩ := isCovered_of_flush hflush
  exact ⟨hclock, placed, hplaced, hcovered⟩

/-- Stopping the tracks that are left only adds clips, by induction on these tracks. -/
theorem exists_segments_of_flushes {tracks : List (Track R)}
    (h : tracks.foldlM (flushLeft setup) p s = .ok q t) :
    q.clock = p.clock ∧ ∃ placed, q.segments.toList = p.segments.toList ++ placed := by
  induction tracks generalizing p s with
  | nil =>
      cases h
      exact ⟨rfl, [], (List.append_nil _).symm⟩
  | cons track rest ih =>
      rw [List.foldlM_cons] at h
      obtain ⟨p', u, hleft, hrest⟩ := Work.bind_eq_ok.mp h
      obtain ⟨hclock, first, hfirst, -⟩ := isCovered_of_flushLeft hleft
      obtain ⟨hclock', others, hothers⟩ := ih hrest
      exact ⟨hclock'.trans hclock, first ++ others, by rw [hothers, hfirst, List.append_assoc]⟩

/-- How the track of a start ends in a build: the clock at that moment, and the clips that are
placed for the track then. -/
inductive Ends (setup : Setup R σ) (lines : List (ScriptLine R)) (v : Session R σ)
    (before : List (ScriptLine R)) (start : ScriptLine R) (description : String) :
    R → List (Segment R) → Prop
  /-- The first later line that stops the track. -/
  | stopped {between rest : List (ScriptLine R)} {stop : ScriptLine R} {p q : Progress R}
      {t u : Session R σ} {placed : List (Segment R)}
      (hlines : lines = before ++ start :: (between ++ stop :: rest))
      (hbetween : ∀ line ∈ between, Clips.isStop description line = false)
      (hstop : Clips.isStop description stop = true)
      (hcommands : commands setup (before ++ start :: between) v = .ok p t)
      (hstep : step setup p stop t = .ok q u)
      (hplaced : q.segments.toList = p.segments.toList ++ placed) :
      Ends setup lines v before start description p.clock placed
  /-- The end of the script, where the tracks that still play are stopped one after the other. -/
  | left {after : List (ScriptLine R)} {p q q' : Progress R} {front back : List (Track R)}
      {track : Track R} {t u u' : Session R σ} {placed : List (Segment R)}
      (hlines : lines = before ++ start :: after)
      (hafter : ∀ line ∈ after, Clips.isStop description line = false)
      (hcommands : commands setup lines v = .ok p t)
      (hlive : p.live = front ++ track :: back) (htrack : track.description = description)
      (hfront : front.foldlM (flushLeft setup) { p with live := [] } t = .ok q u)
      (hleft : flushLeft setup q track u = .ok q' u')
      (hplaced : q'.segments.toList = q.segments.toList ++ placed) :
      Ends setup lines v before start description p.clock placed

omit [Scalar R] in
/-- Either no line stops a track, or there is a first one that does. -/
theorem stop_or_none (description : String) (lines : List (ScriptLine R)) :
    (∀ line ∈ lines, Clips.isStop description line = false) ∨
      ∃ between stop rest, lines = between ++ stop :: rest ∧
        (∀ line ∈ between, Clips.isStop description line = false) ∧
        Clips.isStop description stop = true := by
  cases hfind : lines.find? (Clips.isStop description) with
  | none => exact .inl fun line hline => by simpa using List.find?_eq_none.mp hfind line hline
  | some stop =>
      obtain ⟨hstop, between, rest, rfl, hbetween⟩ := List.find?_eq_some_iff_append.mp hfind
      exact .inr ⟨between, stop, rest, rfl, fun line hline => by simpa using hbetween line hline,
        hstop⟩

omit [Scalar R] in
theorem eq_backgroundStop_of_isStop {description : String} {line : ScriptLine R}
    (h : Clips.isStop description line = true) :
    line = ⟨line.line, .backgroundStop description⟩ := by
  obtain ⟨number, command⟩ := line
  cases command with
  | backgroundStop other =>
      obtain rfl : other = description := by simpa [Clips.isStop] using h
      rfl
  | _ => cases h

/-- A stop places the track that it names. -/
theorem isCovered_of_stop {description : String} {done more : List (ScriptLine R)}
    {stop : ScriptLine R} (hc : checkStructure (done ++ stop :: more) = .ok ())
    (hstop : Clips.isStop description stop = true) (hdone : commands setup done v = .ok p s)
    (hmem : track ∈ p.live) (htrack : track.description = description)
    (h : step setup p stop s = .ok q t) :
    ∃ placed, q.segments.toList = p.segments.toList ++ placed ∧
      track.IsCovered p.clock placed := by
  rw [eq_backgroundStop_of_isStop hstop, ← htrack] at h
  obtain ⟨p', u, -, happly, rfl⟩ := step_eq_ok_iff.mp h
  obtain ⟨found, hfound, hflush⟩ := apply_backgroundStop_eq_ok_iff.mp happly
  rw [find?_of_mem (nodup_live hc hdone) hmem] at hfound
  cases hfound
  obtain ⟨-, placed, hplaced, hcovered⟩ := isCovered_of_flush hflush
  exact ⟨placed, hplaced, hcovered⟩

/-- A track that plays behind all commands is placed with the others that do. -/
theorem exists_flushLeft (hmem : track ∈ p.live) (h : flushAll setup p s = .ok q t) :
    ∃ front back p' q' u u', p.live = front ++ track :: back ∧
      front.foldlM (flushLeft setup) { p with live := [] } s = .ok p' u ∧ p'.clock = p.clock ∧
      flushLeft setup p' track u = .ok q' u' ∧ ∃ late, q.segments.toList
        = q'.segments.toList ++ late := by
  obtain ⟨front, back, hlive⟩ := List.append_of_mem hmem
  unfold flushAll at h
  rw [hlive, List.foldlM_append] at h
  obtain ⟨p', u, hfront, h⟩ := Work.bind_eq_ok.mp h
  rw [List.foldlM_cons] at h
  obtain ⟨q', u', hleft, hback⟩ := Work.bind_eq_ok.mp h
  obtain ⟨hclock, -⟩ := exists_segments_of_flushes hfront
  obtain ⟨-, late, hlate⟩ := exists_segments_of_flushes hback
  exact ⟨front, back, p', q', u, u', hlive, hfront, hclock, hleft, late, hlate⟩

/-- Every start of a build that succeeds has its end, and the clips that are placed there cover the
time in between. -/
theorem exists_ends {pan : R} {description : String} (hc : checkStructure lines = .ok ())
    (hlines : lines = before ++ ⟨number, .backgroundStart pan description⟩ :: after)
    (hcommands : commands setup lines v = .ok p t) (hflush : flushAll setup p t = .ok q u) :
    ∃ p₀ u₀ finish placed, commands setup before v = .ok p₀ u₀ ∧
      Ends setup lines v before ⟨number, .backgroundStart pan description⟩ description finish
        placed ∧
      (⟨description, pan, setup.store.pathFor ⟨.sound, description⟩, p₀.clock, number⟩
        : Track R).IsCovered finish placed ∧
      placed <:+: q.segments.toList := by
  have hwhole := hcommands
  rw [hlines] at hwhole
  obtain ⟨p₀, u₀, hbefore, hrest⟩ := exists_commands_of_append hwhole
  rw [List.foldlM_cons] at hrest
  obtain ⟨p₁, u₁, hstart, hrest⟩ := Work.bind_eq_ok.mp hrest
  generalize htrack :
    (⟨description, pan, setup.store.pathFor ⟨.sound, description⟩, p₀.clock, number⟩ : Track R)
      = track
  have hdescription : track.description = description := by rw [← htrack]
  have hmem : track ∈ p₁.live := by
    rw [live_of_step hstart, ← htrack]
    exact List.mem_append_right _ List.mem_cons_self
  refine ⟨p₀, u₀, ?_⟩
  rcases stop_or_none description after with hafter | ⟨between, stop, rest, rfl, hbetween, hstop⟩
  · have hlive := mem_live_of_steps hmem (by rwa [hdescription]) hrest
    obtain ⟨front, back, p', q', w, w', hsplit, hfront, hclock, hleft, late, hlate⟩ :=
      exists_flushLeft hlive hflush
    obtain ⟨-, placed, hplaced, hcovered⟩ := isCovered_of_flushLeft hleft
    rw [hclock] at hcovered
    refine ⟨p.clock, placed, hbefore, ?_, htrack ▸ hcovered, p'.segments.toList, late, ?_⟩
    · exact .left hlines hafter hcommands hsplit hdescription hfront hleft hplaced
    · rw [hlate, hplaced]
  · rw [List.foldlM_append] at hrest
    obtain ⟨p₂, u₂, hmiddle, hrest⟩ := Work.bind_eq_ok.mp hrest
    rw [List.foldlM_cons] at hrest
    obtain ⟨p₃, u₃, hstep, hrest⟩ := Work.bind_eq_ok.mp hrest
    have hlive := mem_live_of_steps hmem (by rwa [hdescription]) hmiddle
    have hdone : commands setup (before ++ ⟨number, .backgroundStart pan description⟩ :: between) v
        = .ok p₂ u₂ := by
      rw [commands_append, Work.bind_apply_of_ok hbefore, List.foldlM_cons,
        Work.bind_apply_of_ok hstart]
      exact hmiddle
    have hsplit : lines = (before ++ ⟨number, .backgroundStart pan description⟩ :: between)
        ++ stop :: rest := by
      rw [hlines, List.append_assoc, List.cons_append]
    obtain ⟨placed, hplaced, hcovered⟩ :=
      isCovered_of_stop (hsplit ▸ hc) hstop hdone hlive hdescription hstep
    obtain ⟨others, hothers⟩ := exists_segments_of_steps hrest
    obtain ⟨-, late, hlate⟩ := exists_segments_of_flushes hflush
    refine ⟨p₂.clock, placed, hbefore, ?_, htrack ▸ hcovered, p₂.segments.toList,
      others ++ late, ?_⟩
    · exact .stopped hlines hbetween hstop hdone hstep hplaced
    · rw [hlate, hothers, hplaced]
      simp only [List.append_assoc]

end Build

end Soundstage
