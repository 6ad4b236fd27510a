import Soundstage.Proofs.Timeline.Ending
import Soundstage.Proofs.Timeline.Foreground

/-!
# Where clips come from

Every clip of a build is a voice or a sound, or it has been placed for a track where that ended. The
clips of a track are found from its end alone, `Build.Spans`: they are copies of a loop whose length
the prober has answered with, so that they have what all answers of the prober have.
-/

namespace Soundstage

variable {R σ : Type}

/-- Every length that the prober answers with has a property. -/
def Setup.Measures (setup : Setup R σ) (P : R → Prop) : Prop :=
  ∀ path disk cancelled state secs,
    (setup.collaborators.probe path disk cancelled state).outcome = .ok secs → P secs

namespace Build

section Lengths

variable [Scalar R] {setup : Setup R σ} {P : R → Prop} {p q : Progress R} {s t v : Session R σ}
  {path : String} {number : Nat} {secs : R} {line : ScriptLine R} {lines : List (ScriptLine R)}

omit [Scalar R] in
theorem measures_of_probe (hmeasures : setup.Measures P)
    (h : Work.probe setup.collaborators path s = .ok secs t) : P secs := by
  unfold Work.probe at h
  split at h
  · next found surroundings hask =>
      cases h
      exact hmeasures _ _ _ _ _ (congrArg Prod.fst hask)
  · cases h

/-- The lengths that a build remembers have been measured. -/
def Remembers (P : R → Prop) (p : Progress R) : Prop :=
  ∀ path secs, p.loops.lookup path = some secs → P secs

theorem remembers_of_loopLength (hmeasures : setup.Measures P) (hp : Remembers P p)
    (h : loopLength setup p path number s = .ok (secs, q) t) : P secs ∧ Remembers P q := by
  rcases loopLength_eq_ok_iff.mp h with ⟨hknown, rfl, -⟩ | ⟨-, hmeasure, rfl⟩
  · exact ⟨hp path secs hknown, hp⟩
  · have hsecs : P secs := measures_of_probe hmeasures (measure_eq_ok_iff.mp hmeasure).1
    refine ⟨hsecs, fun other found hfound => ?_⟩
    rw [List.lookup_cons] at hfound
    split at hfound
    · cases hfound
      exact hsecs
    · exact hp other found hfound

theorem remembers_of_flush {track : Track R} (hmeasures : setup.Measures P) (hp : Remembers P p)
    (h : flush setup p track number s = .ok q t) : Remembers P q := by
  rcases flush_eq_ok_iff.mp h with ⟨-, rfl, -⟩ | ⟨-, secs, p', tiles, hloop, -, rfl⟩
  · exact hp
  · exact (remembers_of_loopLength hmeasures hp hloop).2

theorem remembers_of_flushLeft {track : Track R} (hmeasures : setup.Measures P)
    (hp : Remembers P p) (h : flushLeft setup p track s = .ok q t) : Remembers P q := by
  obtain ⟨p', hflush, hq⟩ := flushLeft_eq_ok h
  rw [hq]
  exact (remembers_of_flush hmeasures hp hflush :)

theorem remembers_of_step (hmeasures : setup.Measures P) (hp : Remembers P p)
    (h : step setup p line s = .ok q t) : Remembers P q := by
  obtain ⟨p', u, -, happly, rfl⟩ := step_eq_ok_iff.mp h
  obtain ⟨number, command⟩ := line
  cases command with
  | voice pan phrase =>
      obtain ⟨u, secs, -, -, rfl⟩ := apply_voice_eq_ok_iff.mp happly
      exact hp
  | sound pan duration description =>
      obtain ⟨-, -, rfl⟩ := apply_sound_eq_ok_iff.mp happly
      exact hp
  | backgroundStart pan description =>
      obtain ⟨-, -, rfl⟩ := apply_backgroundStart_eq_ok_iff.mp happly
      exact hp
  | backgroundStop description =>
      obtain ⟨track, -, hflush⟩ := apply_backgroundStop_eq_ok_iff.mp happly
      have hdrop : Remembers P (p.drop description) := hp
      exact (remembers_of_flush hmeasures hdrop hflush :)
  | wait duration =>
      obtain ⟨-, rfl, -⟩ := apply_wait_eq_ok_iff.mp happly
      exact hp

theorem remembers_of_commands (hmeasures : setup.Measures P)
    (h : commands setup lines v = .ok p t) : Remembers P p := by
  have hzero : Remembers P ({ clock := Scalar.zero } : Progress R) := by
    intro path secs hnone
    cases hnone
  exact Work.foldlM_keeps (fun _ _ => remembers_of_step hmeasures) hzero h

end Lengths

section Spans

variable [Scalar R] {setup : Setup R σ} {P : R → Prop} {p q : Progress R}
  {s t u u₀ v : Session R σ} {p₀ : Progress R} {number : Nat} {pan : R} {description : String}
  {lines before after done more : List (ScriptLine R)} {line : ScriptLine R} {track : Track R}
  {start finish : R} {placed : List (Segment R)} {clip : Segment R}

/-- The clips that a track is given for the time up to a clock reading, by a loop of a length with a
property. -/
inductive Track.IsLaid (P : R → Prop) (track : Track R) (finish : R) : List (Segment R) → Prop
  | noise (hspan : finish - track.start ≤ Scalar.millionth) : track.IsLaid P finish []
  | tiled {loop : R} {tiles : List (Tile R)} (hloop : P loop)
      (htiles : tileFrom loop track.start (finish - track.start) = .ok tiles) :
      track.IsLaid P finish (track.clips tiles)

theorem isLaid_of_flush (hmeasures : setup.Measures P) (hp : Remembers P p)
    (h : flush setup p track number s = .ok q t)
    (hplaced : q.segments.toList = p.segments.toList ++ placed) :
    track.IsLaid P p.clock placed := by
  rcases flush_eq_ok_iff.mp h with ⟨hspan, rfl, -⟩ | ⟨-, secs, p', tiles, hloop, htiles, rfl⟩
  · obtain rfl : placed = [] := by simpa using hplaced
    exact .noise hspan
  · obtain rfl : track.clips tiles = placed := by simpa using hplaced
    exact .tiled (remembers_of_loopLength hmeasures hp hloop).1 htiles

/-- What becomes of the track of a start: the clock readings at which it is started and ends, and
the clips that are placed for it where it ends. -/
inductive Spans (setup : Setup R σ) (lines : List (ScriptLine R)) (v : Session R σ) :
    R → R → List (Segment R) → Prop
  | intro {before after : List (ScriptLine R)} {number : Nat} {pan : R} {description : String}
      {p : Progress R} {u : Session R σ} {finish : R} {placed : List (Segment R)}
      (hlines : lines = before ++ ⟨number, .backgroundStart pan description⟩ :: after)
      (hbefore : commands setup before v = .ok p u)
      (hends : Ends setup lines v before ⟨number, .backgroundStart pan description⟩ description
        finish placed) :
      Spans setup lines v p.clock finish placed

/-- The track of a start plays as long as no line stops it. -/
theorem mem_live_of_start (hbefore : commands setup before v = .ok p₀ u₀)
    (hafter : ∀ line ∈ after, Clips.isStop description line = false)
    (h : commands setup (before ++ ⟨number, .backgroundStart pan description⟩ :: after) v
      = .ok p t) :
    ⟨description, pan, setup.store.pathFor ⟨.sound, description⟩, p₀.clock, number⟩ ∈ p.live := by
  rw [commands_append, Work.bind_apply_of_ok hbefore, List.foldlM_cons] at h
  obtain ⟨p₁, u₁, hstart, hrest⟩ := Work.bind_eq_ok.mp h
  refine mem_live_of_steps ?_ hafter hrest
  rw [live_of_step hstart]
  exact List.mem_append_right _ List.mem_cons_self

/-- Where a track ends, copies of its loop are laid over the time since its start. -/
theorem Ends.isLaid (hmeasures : setup.Measures P) (hc : checkStructure lines = .ok ())
    (hlines : lines = before ++ ⟨number, .backgroundStart pan description⟩ :: after)
    (hbefore : commands setup before v = .ok p₀ u₀)
    (hends : Ends setup lines v before ⟨number, .backgroundStart pan description⟩ description
      finish placed) :
    (⟨description, pan, setup.store.pathFor ⟨.sound, description⟩, p₀.clock, number⟩
      : Track R).IsLaid P finish placed := by
  cases hends with
  | @stopped between rest stop p q t u _ hsplit hbetween hstop hcommands hstep hplaced =>
      have hwhole : lines = (before ++ ⟨number, .backgroundStart pan description⟩ :: between)
          ++ stop :: rest := by
        rw [hsplit, List.append_assoc, List.cons_append]
      have hmem := mem_live_of_start hbefore hbetween hcommands
      rw [eq_backgroundStop_of_isStop hstop] at hstep
      obtain ⟨p', w, -, happly, rfl⟩ := step_eq_ok_iff.mp hstep
      obtain ⟨found, hfound, hflush⟩ := apply_backgroundStop_eq_ok_iff.mp happly
      have hfirst := find?_of_mem (nodup_live (hwhole ▸ hc) hcommands) hmem
      rw [hfirst] at hfound
      cases hfound
      have hp : Remembers P p := remembers_of_commands hmeasures hcommands
      have hdrop : Remembers P (p.drop description) := hp
      exact (isLaid_of_flush hmeasures hdrop hflush hplaced :)
  | @left _ p q q' front back track t u u' _ hsplit hafter hcommands hlive htrack hfront hleft
      hplaced =>
      rw [hlines] at hsplit
      obtain ⟨-, rfl⟩ := List.cons_eq_cons.mp (List.append_cancel_left hsplit)
      have hmem := mem_live_of_start hbefore hafter (hlines ▸ hcommands)
      have hlawful : checkStructure (lines ++ []) = .ok () := by rwa [List.append_nil]
      have hnodup := nodup_live hlawful hcommands
      have hcurrent : track ∈ p.live := by simp [hlive]
      have hfound := find?_of_mem hnodup hcurrent
      rw [htrack, find?_of_mem hnodup hmem] at hfound
      cases hfound
      obtain ⟨q'', hflush, hq'⟩ := flushLeft_eq_ok hleft
      obtain ⟨hclock, -⟩ := exists_segments_of_flushes hfront
      have hp : Remembers P p := remembers_of_commands hmeasures hcommands
      have hempty : Remembers P { p with live := [] } := hp
      have hq := Work.foldlM_keeps (fun _ _ => remembers_of_flushLeft hmeasures) hempty hfront
      rw [hq'] at hplaced
      have hlaid := isLaid_of_flush hmeasures hq hflush hplaced
      rwa [hclock] at hlaid

/-- The clips of a track are found in the timeline side by side. -/
theorem Ends.together {start : ScriptLine R} (hcommands : commands setup lines v = .ok p t)
    (hflush : flushAll setup p t = .ok q u)
    (hends : Ends setup lines v before start description finish placed) :
    placed <:+: q.segments.toList := by
  obtain ⟨-, late, hlate⟩ := exists_segments_of_flushes hflush
  cases hends with
  | @stopped between rest stop p₁ p₂ t₁ t₂ _ hsplit hbetween hstop hdone hstep hplaced =>
      have hwhole : lines = (before ++ start :: between) ++ stop :: rest := by
        rw [hsplit, List.append_assoc, List.cons_append]
      rw [hwhole, commands_append, Work.bind_apply_of_ok hdone, List.foldlM_cons,
        Work.bind_apply_of_ok hstep] at hcommands
      obtain ⟨others, hothers⟩ := exists_segments_of_steps hcommands
      refine ⟨p₁.segments.toList, others ++ late, ?_⟩
      rw [hlate, hothers, hplaced]
      simp only [List.append_assoc]
  | @left _ p₁ p₂ p₃ front back track t₁ t₂ t₃ _ hsplit hafter hdone hlive htrack hfront hleft
      hplaced =>
      rw [hdone] at hcommands
      cases hcommands
      unfold flushAll at hflush
      rw [hlive, List.foldlM_append, Work.bind_apply_of_ok hfront, List.foldlM_cons,
        Work.bind_apply_of_ok hleft] at hflush
      obtain ⟨-, behind, hbehind⟩ := exists_segments_of_flushes hflush
      refine ⟨p₂.segments.toList, behind, ?_⟩
      rw [hbehind, hplaced]

/-- What a command places: a voice or a sound is one clip at the clock, which moves on to its end; a
stop places the track that it names; the other commands place nothing. -/
theorem placed_of_step (h : step setup p line s = .ok q t) :
    (line.command.isForeground = true ∧ ∃ path secs pan, (line.command.IsValid →
        Scalar.IsPan pan ∧ Scalar.IsLength secs) ∧ q.clock = p.clock + secs ∧
        q.segments.toList = p.segments.toList ++ [⟨path, p.clock, secs, pan⟩]) ∨
      line.command.isForeground = false ∧ ((∃ description,
        Clips.isStop description line = true) ∨ q.segments.toList = p.segments.toList) := by
  obtain ⟨p', u, -, happly, rfl⟩ := step_eq_ok_iff.mp h
  obtain ⟨number, command⟩ := line
  cases command with
  | voice pan phrase =>
      obtain ⟨u, secs, -, hmeasure, rfl⟩ := apply_voice_eq_ok_iff.mp happly
      exact .inl ⟨rfl, _, secs, pan, fun hvalid => ⟨hvalid, (measure_eq_ok_iff.mp hmeasure).2⟩,
        rfl, Array.toList_push⟩
  | sound pan duration description =>
      obtain ⟨-, -, rfl⟩ := apply_sound_eq_ok_iff.mp happly
      exact .inl ⟨rfl, _, duration, pan, id, rfl, Array.toList_push⟩
  | backgroundStart pan description =>
      obtain ⟨-, -, rfl⟩ := apply_backgroundStart_eq_ok_iff.mp happly
      exact .inr ⟨rfl, .inr rfl⟩
  | backgroundStop description => exact .inr ⟨rfl, .inl ⟨description, by simp [Clips.isStop]⟩⟩
  | wait duration =>
      obtain ⟨-, rfl, -⟩ := apply_wait_eq_ok_iff.mp happly
      exact .inr ⟨rfl, .inr rfl⟩

/-- What the first command of a run places in the foreground comes first. -/
theorem foreground_cons (h : step setup p line s = .ok q t) :
    foreground setup (line :: more) p s
      = (if line.command.isForeground then q.segments.toList.drop p.segments.size else [])
        ++ foreground setup more q t := by
  rw [foreground]
  simp only [h]

theorem foreground_append (h : done.foldlM (step setup) p s = .ok q t) :
    foreground setup (done ++ more) p s
      = foreground setup done p s ++ foreground setup more q t := by
  induction done generalizing p s with
  | nil =>
      cases h
      rfl
  | cons line rest ih =>
      rw [List.foldlM_cons] at h
      obtain ⟨p', u, hstep, hrest⟩ := Work.bind_eq_ok.mp h
      rw [List.cons_append, foreground_cons hstep, foreground_cons hstep, ih hrest,
        List.append_assoc]

/-- The track of a start that no line behind it stops ends at the next line if that does. -/
theorem Track.IsStarted.spans_of_stop {stop : ScriptLine R}
    (hstarted : track.IsStarted setup v done) (hstop : Clips.isStop track.description stop = true)
    (hdone : commands setup done v = .ok p s) (hstep : step setup p stop s = .ok q t)
    (hplaced : q.segments.toList = p.segments.toList ++ placed) :
    Spans setup (done ++ stop :: more) v track.start p.clock placed := by
  obtain ⟨before, between, rfl, hbetween, -, p₀, w, hbefore, hclock⟩ := hstarted
  rw [← hclock]
  refine .intro (by rw [List.append_assoc, List.cons_append]) hbefore ?_
  exact .stopped (by rw [List.append_assoc, List.cons_append]) hbetween hstop hdone hstep hplaced

/-- Behind any number of commands, each clip is a voice or a sound or belongs to a track that has
ended, by induction on the script from its end. -/
theorem origin_of_commands (hc : checkStructure (done ++ more) = .ok ())
    (h : commands setup done v = .ok p t) (hclip : clip ∈ p.segments.toList) :
    clip ∈ foreground setup done { clock := Scalar.zero } v ∨
      ∃ start finish placed, Spans setup (done ++ more) v start finish placed ∧ clip ∈ placed := by
  induction done using List.reverseRecOn generalizing p t more with
  | nil =>
      cases h
      cases hclip
  | append_singleton done line ih =>
      obtain ⟨p', u, hdone, hstep⟩ := commands_concat_eq_ok.mp h
      rw [List.append_assoc, List.singleton_append] at hc ⊢
      rw [foreground_append hdone, foreground_cons hstep, foreground, List.append_nil]
      obtain ⟨placed, hplaced⟩ := exists_segments_of_step hstep
      rw [hplaced] at hclip
      rcases List.mem_append.mp hclip with hold | hnew
      · exact (ih hc hdone hold).imp_left (List.mem_append_left _)
      rcases placed_of_step hstep with ⟨hline, path, secs, pan, -, -, -⟩ |
        ⟨-, ⟨description, hstop⟩ | hnone⟩
      · left
        rw [if_pos hline, hplaced, ← Array.length_toList, List.drop_left]
        exact List.mem_append_right _ hnew
      · right
        have hnamed := hstep
        rw [eq_backgroundStop_of_isStop hstop] at hnamed hc
        obtain ⟨track, hfound, hdescription⟩ := exists_find?_live hc hdone
        have hstarted := isStarted_of_mem_live hc hdone track (List.mem_of_find?_eq_some hfound)
        rw [← hdescription] at hstop
        exact ⟨_, _, placed, hstarted.spans_of_stop hstop hdone hstep hplaced, hnew⟩
      · obtain rfl : placed = [] := by simpa [hplaced] using hnone
        cases hnew

/-- A clip that is placed behind all commands is placed for one of the tracks that are left, by
induction on these from the last one. -/
theorem exists_left_of_mem {tracks : List (Track R)}
    (h : tracks.foldlM (flushLeft setup) p s = .ok q t) (hclip : clip ∈ q.segments.toList) :
    clip ∈ p.segments.toList ∨ ∃ front track back p' q' u u' placed,
      tracks = front ++ track :: back ∧ front.foldlM (flushLeft setup) p s = .ok p' u ∧
        flushLeft setup p' track u = .ok q' u' ∧
        q'.segments.toList = p'.segments.toList ++ placed ∧ clip ∈ placed := by
  induction tracks using List.reverseRecOn generalizing q t with
  | nil =>
      cases h
      exact .inl hclip
  | append_singleton tracks track ih =>
      rw [List.foldlM_append] at h
      obtain ⟨p', u, hfront, h⟩ := Work.bind_eq_ok.mp h
      rw [List.foldlM_cons] at h
      obtain ⟨q', u', hleft, h⟩ := Work.bind_eq_ok.mp h
      cases h
      obtain ⟨-, placed, hplaced, -⟩ := isCovered_of_flushLeft hleft
      rw [hplaced] at hclip
      rcases List.mem_append.mp hclip with hold | hnew
      · refine (ih hfront hold).imp_right ?_
        rintro ⟨front, other, back, p₁, q₁, u₁, u₂, clips, rfl, hrest⟩
        exact ⟨front, other, back ++ [track], p₁, q₁, u₁, u₂, clips, by simp, hrest⟩
      · exact .inr ⟨tracks, track, [], p', q, u, t, placed, rfl, hfront, hleft, hplaced, hnew⟩

/-- Each clip of a build is a voice or a sound, or it belongs to a track. -/
theorem origin (hc : checkStructure lines = .ok ()) (hcommands : commands setup lines v = .ok p t)
    (hflush : flushAll setup p t = .ok q u) (hclip : clip ∈ q.segments.toList) :
    clip ∈ foreground setup lines { clock := Scalar.zero } v ∨
      ∃ start finish placed, Spans setup lines v start finish placed ∧ clip ∈ placed := by
  rw [← List.append_nil lines] at hc
  rcases exists_left_of_mem hflush hclip with hearly |
    ⟨front, track, back, p', q', w, w', placed, hlive, hfront, hleft, hplaced, hnew⟩
  · have horigin := origin_of_commands hc hcommands hearly
    rwa [List.append_nil] at horigin
  · right
    have hstarted := isStarted_of_mem_live hc hcommands track (by simp [hlive])
    obtain ⟨before, after, hlines, hafter, -, p₀, w₀, hbefore, -⟩ := hstarted
    exact ⟨_, _, placed, .intro hlines hbefore
      (.left hlines hafter hcommands hlive rfl hfront hleft hplaced), hnew⟩

/-- In particular no voice or sound gets lost. -/
theorem foreground_sublist_of_build (hcommands : commands setup lines v = .ok p t)
    (hflush : flushAll setup p t = .ok q u) :
    (foreground setup lines { clock := Scalar.zero } v).Sublist q.segments.toList := by
  obtain ⟨placed, hplaced, hsub⟩ := foreground_sublist hcommands
  obtain ⟨-, late, hlate⟩ := exists_segments_of_flushes hflush
  rw [hlate, hplaced, List.append_assoc]
  exact (hsub.trans (List.sublist_append_left placed late)).trans (List.sublist_append_right _ _)

end Spans

end Build

end Soundstage
