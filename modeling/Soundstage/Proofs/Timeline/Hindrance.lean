import Soundstage.Proofs.Timeline.Blame

/-!
# What can hinder a build

Apart from requests to give up, a build can be hindered by the structure of its script, by a
collaborator that fails or gives nothing usable, by the disk on which assets are kept, by a loop
that cannot cover its span and by the check of its timeline. A build that meets none of these,
`Build.Smooth`, can only fail because it is given up. `Build.Answered` is the part of this that does
not look into the answers of collaborators.
-/

namespace Soundstage

variable {R σ : Type}

namespace Build

/-- A request comes to its generator: the asset is absent both before its lock is made and behind
it, and the generator finds the given disk. -/
structure Generates (setup : Setup R σ) (r : Request R) (u : Session R σ) (disk : Disk) :
    Prop where
  absent : u.shelf.disk.isFile (setup.store.pathFor r.key) = false
  reserved : setup.store.reserve (setup.store.pathFor r.key) u.shelf.disk
    = ((.ok (), disk) : Except (Failure R) Unit × Disk)
  absent_behind : disk.isFile (setup.store.pathFor r.key) = false

/-- What the generator of a requested asset answers. -/
def generated (setup : Setup R σ) (r : Request R) (u : Session R σ) :
    Except (Failure R) ByteArray :=
  (setup.collaborators.generate r.key r.hint u.surroundings).1

variable [Scalar R]

/-- The moments of a build in which a track is placed: a command stops it, or the end of the script
does. -/
inductive Places (setup : Setup R σ) (lines : List (ScriptLine R)) (s : Session R σ) :
    Progress R → Track R → Session R σ → Prop
  | stop {before : List (ScriptLine R)} {number : Nat} {description : String} {p : Progress R}
      {track : Track R} {t u : Session R σ}
      (hcomes : ComesTo setup lines s before ⟨number, .backgroundStop description⟩ p t)
      (hcheck : Work.checkpoint setup.collaborators "timeline build" t = .ok () u)
      (htrack : p.live.find? (·.description = description) = some track) :
      Places setup lines s (p.drop description) track u
  | left {p q : Progress R} {front back : List (Track R)} {track : Track R} {v t u : Session R σ}
      (hopens : Opens setup lines s v) (hcommands : commands setup lines v = .ok p t)
      (hlive : p.live = front ++ track :: back)
      (hfront : front.foldlM (flushLeft setup) { p with live := [] } t = .ok q u) :
      Places setup lines s q track u

/-- The moments of a build in which a file is measured: that of a voice which has been spoken, or
that of a loop which is not known yet. -/
inductive Measures (setup : Setup R σ) (lines : List (ScriptLine R)) (s : Session R σ) :
    String → Session R σ → Prop
  | voice {before : List (ScriptLine R)} {number : Nat} {pan : R} {phrase : String}
      {p : Progress R} {t u v : Session R σ} {path : String}
      (hcomes : ComesTo setup lines s before ⟨number, .voice pan phrase⟩ p t)
      (hcheck : Work.checkpoint setup.collaborators "timeline build" t = .ok () u)
      (hmade : materialize setup ⟨⟨.voice, phrase⟩, none, number⟩ u = .ok path v) :
      Measures setup lines s path v
  | loop {p : Progress R} {track : Track R} {u : Session R σ}
      (hplaces : Places setup lines s p track u)
      (hspan : ¬ p.clock - track.start ≤ Scalar.millionth)
      (hnew : p.loops.lookup track.path = none) : Measures setup lines s track.path u

/-- The structure of a script is sound, all collaborators that its build calls answer, each loop
covers its span and the timeline passes its check. -/
structure Answered (setup : Setup R σ) (lines : List (ScriptLine R)) (s : Session R σ) : Prop where
  structured : checkStructure lines = .ok ()
  generated : ∀ r u disk, Asked setup lines s r u → Generates setup r u disk →
    ∃ content, Build.generated setup r u = .ok content
  measured : ∀ path u, Measures setup lines s path u →
    ∃ secs v, Work.probe setup.collaborators path u = .ok secs v
  tiled : ∀ p track u, Places setup lines s p track u →
    ¬ p.clock - track.start ≤ Scalar.millionth → ∀ number secs q v,
      loopLength setup p track.path number u = .ok (secs, q) v →
        ∃ tiles, tileFrom secs track.start (p.clock - track.start) = .ok tiles
  validated : ∀ u p v, Opens setup lines s u → run setup lines u = .ok p v →
    p.timeline.check = .ok ()

/-- Moreover generators give at least one byte, measured files can be played, and the disk takes
the folders, locks and files of the assets. -/
structure Smooth (setup : Setup R σ) (lines : List (ScriptLine R)) (s : Session R σ) : Prop extends
    Answered setup lines s where
  filled : ∀ r u disk content, Asked setup lines s r u → Generates setup r u disk →
    Build.generated setup r u = .ok content → content.isEmpty = false
  playable : ∀ path u secs v, Measures setup lines s path u →
    Work.probe setup.collaborators path u = .ok secs v → Scalar.IsLength secs
  reserved : ∀ r u, Asked setup lines s r u →
    u.shelf.disk.isFile (setup.store.pathFor r.key) = false →
      ∃ disk, setup.store.reserve (setup.store.pathFor r.key) u.shelf.disk
        = ((.ok (), disk) : Except (Failure R) Unit × Disk)
  kept : ∀ r u disk content, Asked setup lines s r u → Generates setup r u disk →
    Build.generated setup r u = .ok content →
      (setup.store.writeWhole (setup.store.pathFor r.key) content { u.shelf with disk := disk } :
        Except (Failure R) Unit × Shelf).1 = .ok ()

variable {setup : Setup R σ} {lines before : List (ScriptLine R)} {line : ScriptLine R}
  {p : Progress R} {track : Track R} {s t u v : Session R σ} {r : Request R} {path : String}
  {number : Nat} {failure cause : Failure R}

/-- Every asset that is asked for is had. -/
theorem Smooth.not_assetFails (h : Smooth setup lines s) (hasked : Asked setup lines s r u) :
    ¬ AssetFails setup r u cause := by
  intro hfails
  obtain ⟨hensures, -⟩ := ensures_and_materialize_eq setup r u
  have hanswer : storeAnswer setup r u = .ok (setup.store.pathFor r.key) := by
    refine hensures.eq_ok_iff.mpr fun hf => ?_
    obtain ⟨disk, hreserve⟩ := h.reserved r u hasked hf
    refine ⟨disk, hreserve, fun hf' => ?_⟩
    have hgenerates : Generates setup r u disk := ⟨hf, hreserve, hf'⟩
    obtain ⟨content, hcontent⟩ := h.generated r u disk hasked hgenerates
    exact ⟨content, hcontent, h.filled r u disk content hasked hgenerates hcontent,
      h.kept r u disk content hasked hgenerates hcontent⟩
  rw [hfails] at hanswer
  cases hanswer

/-- Every file that is measured has a length. -/
theorem Smooth.not_measureFails (h : Smooth setup lines s)
    (hmeasures : Measures setup lines s path u) : ¬ MeasureFails setup path u cause := by
  intro hfails
  obtain ⟨secs, v, hprobe⟩ := h.measured path u hmeasures
  cases hfails with
  | probe hfailed =>
      rw [hprobe] at hfailed
      cases hfailed
  | unplayable hsecs hl => exact hl (h.playable path u _ _ hmeasures hsecs)

/-- Every track is placed. -/
theorem Smooth.flush_ne_error (h : Smooth setup lines s)
    (hplaces : Places setup lines s p track u) :
    flush setup p track number u ≠ .error failure v := by
  intro hfailed
  obtain ⟨cause, hcause, -⟩ := flush_eq_error hfailed
  cases hcause with
  | measuring hspan hnew hfails => exact h.not_measureFails (.loop hplaces hspan hnew) hfails
  | covering hspan hloop htile =>
      obtain ⟨tiles, htiles⟩ := h.tiled p track u hplaces hspan _ _ _ _ hloop
      rw [htile] at htiles
      cases htiles

/-- Every command that is begun is done. -/
theorem Smooth.apply_ne_error (h : Smooth setup lines s)
    (hcomes : ComesTo setup lines s before line p t)
    (hcheck : Work.checkpoint setup.collaborators "timeline build" t = .ok () u) :
    apply setup p line u ≠ .error failure v := by
  intro hfailed
  have hasset : ∀ {r failure w}, line.request? = some r →
      materialize setup r u ≠ .error failure w := by
    intro r failure w hr hmade
    obtain ⟨cause, hcause, -⟩ := materialize_eq_error hmade
    exact h.not_assetFails (.command hcomes hr hcheck) hcause
  rw [apply_of_rechecked hcomes.recheck] at hfailed
  obtain ⟨number, command⟩ := line
  cases command with
  | voice pan phrase =>
      rcases Work.bind_eq_error.mp hfailed with hmade | ⟨path, w, hmade, hrest⟩
      · exact hasset rfl hmade
      · rcases Work.bind_eq_error.mp hrest with hmeasure | ⟨secs, x, -, hrest⟩
        · obtain ⟨cause, hcause, -⟩ := measure_eq_error hmeasure
          exact h.not_measureFails (.voice hcomes hcheck hmade) hcause
        · cases hrest
  | sound pan duration description =>
      rcases Work.bind_eq_error.mp hfailed with hmade | ⟨path, w, -, hrest⟩
      · exact hasset rfl hmade
      · cases hrest
  | backgroundStart pan description =>
      rcases Work.bind_eq_error.mp hfailed with hmade | ⟨path, w, -, hrest⟩
      · exact hasset rfl hmade
      · cases hrest
  | backgroundStop description =>
      obtain @⟨after, w, hc, hlines, hopens, hbefore⟩ := id hcomes
      obtain ⟨track, htrack, -⟩ := exists_find?_live (hlines ▸ hc) hbefore
      rw [perform_backgroundStop_eq, htrack] at hfailed
      exact h.flush_ne_error (.stop hcomes hcheck htrack) hfailed
  | wait duration => cases hfailed

omit [Scalar R] in
/-- Work that stops between two steps has been given up. -/
theorem isCancelled_of_checkpoint {what : String}
    (h : Work.checkpoint setup.collaborators what s = .error cause t) :
    cause = .cancelled what ∧ t.surroundings.cancelled = true := by
  unfold Work.checkpoint at h
  dsimp only at h
  split at h
  · next hrequested =>
      cases h
      exact ⟨rfl, hrequested⟩
  · cases h

/-- Commands only stop where work is given up. -/
theorem Smooth.isCancelled_of_commands (h : Smooth setup lines s) (hopens : Opens setup lines s u)
    (hfailed : commands setup lines u = .error failure t) :
    failure.isCancelled = true ∧ t.surroundings.cancelled = true := by
  obtain ⟨before, line, after, p, v, hlines, hbefore, hstep⟩ := Work.foldlM_eq_error.mp hfailed
  have hcomes : ComesTo setup lines s before line p v := ⟨h.structured, hlines, hopens, hbefore⟩
  unfold step at hstep
  rcases Work.bind_eq_error.mp hstep with hcheck | ⟨⟨⟩, w, hcheck, hrest⟩
  · obtain ⟨cause, hcause, rfl⟩ := Work.atLine_eq_error.mp hcheck
    obtain ⟨rfl, hrequested⟩ := isCancelled_of_checkpoint hcause
    exact ⟨rfl, hrequested⟩
  · rcases Work.bind_eq_error.mp hrest with happly | ⟨q, x, -, hrest⟩
    · exact absurd happly (h.apply_ne_error hcomes (Work.atLine_eq_ok.mp hcheck))
    · cases hrest

/-- The tracks that are left are placed. -/
theorem Smooth.flushAll_ne_error (h : Smooth setup lines s) (hopens : Opens setup lines s v)
    (hcommands : commands setup lines v = .ok p u) :
    flushAll setup p u ≠ .error failure t := by
  intro hfailed
  obtain ⟨front, track, back, q, w, hlive, hfront, hleft⟩ := Work.foldlM_eq_error.mp hfailed
  rcases Work.bind_eq_error.mp hleft with hflush | ⟨q', x, -, hrest⟩
  · exact h.flush_ne_error (.left hopens hcommands hlive hfront) hflush
  · cases hrest

/-- A build that nothing hinders only fails because it is given up. -/
theorem Smooth.isCancelled (h : Smooth setup lines s)
    (hfailed : build setup lines s = .error failure t) :
    failure.isCancelled = true ∧ t.surroundings.cancelled = true := by
  have hconclude : ∀ {u}, Opens setup lines s u → conclude setup lines u = .error failure t →
      failure.isCancelled = true ∧ t.surroundings.cancelled = true := by
    intro u hopens hfailed
    rcases Work.bind_eq_error.mp hfailed with hrun | ⟨p, v, hrun, hrest⟩
    · rcases Work.bind_eq_error.mp hrun with hcommands | ⟨p, v, hcommands, hflush⟩
      · exact h.isCancelled_of_commands hopens hcommands
      · exact absurd hflush (h.flushAll_ne_error hopens hcommands)
    · cases hfinish : finish p with
      | ok result =>
          simp only [hfinish] at hrest
          cases hrest
      | error cause =>
          have hcheck := finish_eq_error hfinish
          rw [h.validated u p v hopens hrun] at hcheck
          cases hcheck
  by_cases hw : 1 < setup.workers
  · rw [build_of_many_workers h.structured hw] at hfailed
    rcases Work.bind_eq_error.mp hfailed with hprefetch | ⟨⟨⟩, u, hprefetch, hrest⟩
    · obtain ⟨r, -, u, cause, hasked, hcause, -⟩ :=
        prefetch_eq_error h.structured hw hprefetch
      exact absurd hcause (h.not_assetFails hasked)
    · exact hconclude (.ahead hw hprefetch) hrest
  · rw [build_of_one_worker h.structured hw] at hfailed
    exact hconclude (.alone hw) hfailed

/-- A build whose script stops no track, and which does not come to its end, places none. -/
theorem not_places (hw : ¬ 1 < setup.workers)
    (hnone : ∀ line ∈ lines, ∀ description, Clips.isStop description line = false)
    (hstops : commands setup lines s = .error failure t) : ¬ Places setup lines s p track u := by
  intro hplaces
  cases hplaces with
  | @stop before number description _ _ _ _ hcomes =>
      obtain ⟨-, hlines, -, -⟩ := hcomes
      have hmem : (⟨number, .backgroundStop description⟩ : ScriptLine R) ∈ lines := by
        simp [hlines]
      have hstop := hnone _ hmem description
      simp [Clips.isStop] at hstop
  | left hopens hall =>
      cases hopens with
      | ahead hw' => exact hw hw'
      | alone =>
          rw [hstops] at hall
          cases hall

section Success

variable {result : Timeline R × Report} {w : Session R σ}

omit [Scalar R] in
theorem Opens.unique (h : Opens setup lines s u) (h' : Opens setup lines s v) : u = v := by
  cases h with
  | alone hw =>
      cases h' with
      | alone => rfl
      | ahead hw' => exact absurd hw' hw
  | ahead hw hprefetch =>
      cases h' with
      | alone hw' => exact absurd hw hw'
      | ahead _ hprefetch' =>
          rw [hprefetch] at hprefetch'
          cases hprefetch'
          rfl

/-- A build that succeeds does each command that it comes to. -/
theorem ComesTo.exists_apply (hcomes : ComesTo setup lines s before line p t)
    (hcheck : Work.checkpoint setup.collaborators "timeline build" t = .ok () u)
    (h : build setup lines s = .ok result w) : ∃ q v, apply setup p line u = .ok q v := by
  obtain ⟨hc, v, hopens, hconclude⟩ := build_eq_ok_iff.mp h
  obtain ⟨q, x, -, hcommands, -⟩ := conclude_eq_ok_iff.mp hconclude
  obtain @⟨after, v', -, rfl, hopens', hbefore⟩ := hcomes
  obtain rfl := hopens.unique hopens'
  obtain ⟨p', t', hbefore', hrest⟩ := exists_commands_of_append hcommands
  rw [hbefore] at hbefore'
  cases hbefore'
  rw [List.foldlM_cons] at hrest
  obtain ⟨q', y, hstep, -⟩ := Work.bind_eq_ok.mp hrest
  obtain ⟨q'', u', hcheck', happly, -⟩ := step_eq_ok_iff.mp hstep
  rw [hcheck] at hcheck'
  cases hcheck'
  exact ⟨q'', y, happly⟩

/-- It places each track. -/
theorem Places.exists_flush (hplaces : Places setup lines s p track u)
    (h : build setup lines s = .ok result w) :
    ∃ number q v, flush setup p track number u = .ok q v := by
  cases hplaces with
  | @stop before number description p track t u hcomes hcheck htrack =>
      obtain ⟨q, v, happly⟩ := hcomes.exists_apply hcheck h
      obtain ⟨found, hfound, hflush⟩ := apply_backgroundStop_eq_ok_iff.mp happly
      rw [htrack] at hfound
      cases hfound
      exact ⟨number, q, v, hflush⟩
  | @left p q front back track v t u hopens hcommands hlive hfront =>
      obtain ⟨hc, v', hopens', hconclude⟩ := build_eq_ok_iff.mp h
      obtain rfl := hopens.unique hopens'
      obtain ⟨p', t', q', hcommands', hflush, -⟩ := conclude_eq_ok_iff.mp hconclude
      rw [hcommands] at hcommands'
      cases hcommands'
      unfold flushAll at hflush
      rw [hlive, List.foldlM_append] at hflush
      obtain ⟨q₁, u', hfront', hrest⟩ := Work.bind_eq_ok.mp hflush
      rw [hfront] at hfront'
      cases hfront'
      rw [List.foldlM_cons] at hrest
      obtain ⟨q₂, x, hleft, -⟩ := Work.bind_eq_ok.mp hrest
      obtain ⟨p₂, hplaced, -⟩ := flushLeft_eq_ok hleft
      exact ⟨track.line, p₂, x, hplaced⟩

/-- It measures each file that it comes to. -/
theorem Measures.exists_probe (hmeasures : Measures setup lines s path u)
    (h : build setup lines s = .ok result w) :
    ∃ secs v, Work.probe setup.collaborators path u = .ok secs v ∧ Scalar.IsLength secs := by
  cases hmeasures with
  | @voice before number pan phrase p t u _ _ hcomes hcheck hmade =>
      obtain ⟨q, x, happly⟩ := hcomes.exists_apply hcheck h
      obtain ⟨y, secs, hmade', hmeasure, -⟩ := apply_voice_eq_ok_iff.mp happly
      rw [hmade] at hmade'
      cases hmade'
      exact ⟨secs, x, measure_eq_ok_iff.mp hmeasure⟩
  | @loop p track _ hplaces hspan hnew =>
      obtain ⟨number, q, v, hflush⟩ := hplaces.exists_flush h
      rcases flush_eq_ok_iff.mp hflush with ⟨hnoise, -⟩ | ⟨-, secs, p', tiles, hloop, -⟩
      · exact absurd hnoise hspan
      · rcases loopLength_eq_ok_iff.mp hloop with ⟨hknown, -⟩ | ⟨-, hmeasure, -⟩
        · rw [hnew] at hknown
          cases hknown
        · exact ⟨secs, v, measure_eq_ok_iff.mp hmeasure⟩

/-- It has each asset that it asks for, where it works alone. -/
theorem Asked.storeAnswer_eq (hasked : Asked setup lines s r u) (hw : ¬ 1 < setup.workers)
    (h : build setup lines s = .ok result w) :
    storeAnswer setup r u = .ok (setup.store.pathFor r.key) := by
  cases hasked with
  | worker hc hw' => exact absurd hw' hw
  | @command before line _ p t _ hcomes hr hcheck =>
      obtain ⟨q, v, happly⟩ := hcomes.exists_apply hcheck h
      obtain ⟨next, hnext, -⟩ := exists_perform_eq (upholds_ensues setup) hr p
      rw [apply_of_rechecked hcomes.recheck, hnext] at happly
      obtain ⟨path, x, hmade, -⟩ := Work.bind_eq_ok.mp happly
      obtain ⟨hensures, hm⟩ := ensures_and_materialize_eq setup r u
      cases ha : storeAnswer setup r u with
      | error cause =>
          rw [hmade, ha] at hm
          cases hm
      | ok path =>
          rw [ha] at hensures
          rw [hensures.eq_pathFor]

/-- The length of a loop does not depend on the line that is responsible. -/
theorem loopLength_line {secs : R} {q : Progress R}
    (h : loopLength setup p path number s = .ok (secs, q) t) (other : Nat) :
    loopLength setup p path other s = .ok (secs, q) t := by
  rcases loopLength_eq_ok_iff.mp h with hknown | ⟨hnew, hmeasure, hq⟩
  · exact loopLength_eq_ok_iff.mpr (.inl hknown)
  · have hmeasure' : measure setup path other s = .ok secs t :=
      measure_eq_ok_iff.mpr (measure_eq_ok_iff.mp hmeasure)
    exact loopLength_eq_ok_iff.mpr (.inr ⟨hnew, hmeasure', hq⟩)

/-- A build that works alone and succeeds has met nothing that could have hindered it. -/
theorem smooth_of_build (hw : ¬ 1 < setup.workers) (h : build setup lines s = .ok result w) :
    Smooth setup lines s := by
  have hhad : ∀ r u, Asked setup lines s r u →
      u.shelf.disk.isFile (setup.store.pathFor r.key) = false → _ :=
    fun r u hasked => (ensures_and_materialize_eq setup r u).1.eq_ok_iff.mp
      (hasked.storeAnswer_eq hw h)
  have hgenerated : ∀ r u disk, Asked setup lines s r u → Generates setup r u disk →
      ∃ content, Build.generated setup r u = .ok content ∧ content.isEmpty = false ∧
        (setup.store.writeWhole (setup.store.pathFor r.key) content { u.shelf with disk := disk } :
          Except (Failure R) Unit × Shelf).1 = .ok () := by
    intro r u disk hasked hgenerates
    obtain ⟨disk', hreserve, hmade⟩ := hhad r u hasked hgenerates.absent
    rw [hgenerates.reserved] at hreserve
    cases hreserve
    exact hmade hgenerates.absent_behind
  exact {
    structured := (build_eq_ok_iff.mp h).1
    generated := by
      intro r u disk hasked hgenerates
      obtain ⟨content, hcontent, -⟩ := hgenerated r u disk hasked hgenerates
      exact ⟨content, hcontent⟩
    measured := by
      intro path u hmeasures
      obtain ⟨secs, v, hprobe, -⟩ := hmeasures.exists_probe h
      exact ⟨secs, v, hprobe⟩
    tiled := by
      intro p track u hplaces hspan number secs q v hloop
      obtain ⟨number', q', v', hflush⟩ := hplaces.exists_flush h
      rcases flush_eq_ok_iff.mp hflush with ⟨hnoise, -⟩ | ⟨-, secs', p', tiles, hloop', htiles, -⟩
      · exact absurd hnoise hspan
      · rw [loopLength_line hloop number'] at hloop'
        cases hloop'
        exact ⟨tiles, htiles⟩
    validated := by
      intro u p v hopens hrun
      obtain ⟨-, u', hopens', hconclude⟩ := build_eq_ok_iff.mp h
      obtain rfl := hopens.unique hopens'
      obtain ⟨p', hrun', -, hcheck, -⟩ := conclude_eq_ok hconclude
      rw [hrun] at hrun'
      cases hrun'
      exact hcheck
    filled := by
      intro r u disk content hasked hgenerates hcontent
      obtain ⟨content', hcontent', hbytes, -⟩ := hgenerated r u disk hasked hgenerates
      rw [hcontent] at hcontent'
      cases hcontent'
      exact hbytes
    playable := by
      intro path u secs v hmeasures hprobe
      obtain ⟨secs', v', hprobe', hl⟩ := hmeasures.exists_probe h
      rw [hprobe] at hprobe'
      cases hprobe'
      exact hl
    reserved := by
      intro r u hasked hf
      obtain ⟨disk, hreserve, -⟩ := hhad r u hasked hf
      exact ⟨disk, hreserve⟩
    kept := by
      intro r u disk content hasked hgenerates hcontent
      obtain ⟨content', hcontent', -, hwritten⟩ := hgenerated r u disk hasked hgenerates
      rw [hcontent] at hcontent'
      cases hcontent'
      exact hwritten }

end Success

end Build

end Soundstage
