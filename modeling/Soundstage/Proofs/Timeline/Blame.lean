import Soundstage.Proofs.Timeline.Ensuing
import Soundstage.Proofs.Timeline.Live
import Soundstage.Proofs.Timeline.Workers
import Soundstage.Timeline.Trace

/-!
# Which command a failure names

A build that fails before its timeline is checked names a line, and `Build.Blames` says which one:
the first line that the structure check refuses, the first mention of an asset that cannot be had,
the command that measures a file or covers a span, or the next command where work is given up. The
proof follows a failure inwards, from the build to its stages and from there to the single command,
where the collaborator or the store has failed.
-/

namespace Soundstage

variable {R σ : Type}

/-- What collaborators report does not name lines of the script, which they do not know. -/
structure Collaborators.Unlocated (c : Collaborators R σ) : Prop where
  speech : ∀ phrase cancelled state failure,
    (c.speech phrase cancelled state).outcome = .error failure → failure.line? = none
  sound : ∀ description hint cancelled state failure,
    (c.sound description hint cancelled state).outcome = .error failure → failure.line? = none
  probe : ∀ path disk cancelled state failure,
    (c.probe path disk cancelled state).outcome = .error failure → failure.line? = none

theorem Failure.locate_of_none {failure : Failure R} {line : Nat} (h : failure.line? = none) :
    failure.locate line = .atLine line failure := by
  unfold locate
  rw [h]

theorem ScriptLine.key?_eq (line : ScriptLine R) :
    line.key? = line.request?.map (·.key) := by
  obtain ⟨number, command⟩ := line
  cases command <;> rfl

namespace Store

variable {store : Store} {key : AssetKey} {generate : σ → Except (Failure R) ByteArray × σ}
  {shelf shelf' : Shelf} {state state' : σ} {disk disk' : Disk} {content : ByteArray}
  {path : String} {cause : Failure R}

theorem line_of_reserve (h : store.reserve path disk = (.error cause, disk')) :
    cause.line? = none := by
  simp only [reserve] at h
  split at h
  · cases h
    rfl
  · split at h <;> cases h
    rfl

theorem line_of_writeWhole (h : store.writeWhole path content shelf = (.error cause, shelf')) :
    cause.line? = none := by
  simp only [writeWhole, writeTemporary, moveIntoPlace] at h
  split at h
  · next written hwritten =>
      cases h
      split at hwritten <;> cases hwritten
      rfl
  · split at h <;> cases h
    rfl

theorem line_of_keep (h : store.keep key content shelf = (.error cause, shelf')) :
    cause.line? = none := by
  cases hempty : content.isEmpty with
  | true =>
      rw [keep_of_isEmpty hempty] at h
      cases h
      rfl
  | false =>
      match hw : (store.writeWhole (store.pathFor key) content shelf :
          Except (Failure R) Unit × Shelf) with
      | (.error failure, written) =>
          rw [keep_of_not_written hempty hw] at h
          cases h
          exact line_of_writeWhole hw
      | (.ok (), written) =>
          rw [keep_of_written hempty hw] at h
          cases h

/-- The failures of the store have no line, and those of a generator are passed on. -/
theorem Ensures.line_of_error
    (h : store.Ensures key generate shelf state (.error cause) shelf' state')
    (hgenerate : ∀ failure, (generate state).1 = .error failure → failure.line? = none) :
    cause.line? = none := by
  cases h with
  | refused hf hr => exact line_of_reserve hr
  | failed hf hr hf' hg => exact hgenerate cause (by rw [hg])
  | answered hf hr hf' hg hk => exact line_of_keep hk

end Store

namespace Build

section Causes

variable {setup : Setup R σ} {r : Request R} {s t : Session R σ} {path : String} {number : Nat}
  {failure cause : Failure R}

/-- A request is not answered with its asset, because its generator fails or the store does. -/
def AssetFails (setup : Setup R σ) (r : Request R) (s : Session R σ) (cause : Failure R) : Prop :=
  storeAnswer setup r s = .error cause

theorem materialize_eq_error (h : materialize setup r s = .error failure t) :
    ∃ cause, AssetFails setup r s cause ∧ failure = r.failure cause := by
  obtain ⟨-, hm⟩ := ensures_and_materialize_eq setup r s
  cases ha : storeAnswer setup r s with
  | ok path =>
      rw [h, ha] at hm
      cases hm
  | error cause =>
      rw [h, ha] at hm
      cases hm
      exact ⟨cause, ha, rfl⟩

theorem AssetFails.materialize (h : AssetFails setup r s cause) :
    ∃ t, materialize setup r s = .error (r.failure cause) t := by
  obtain ⟨-, hm⟩ := ensures_and_materialize_eq setup r s
  rw [h] at hm
  exact ⟨_, hm⟩

/-- Only an asset that is absent can fail. -/
theorem AssetFails.absent (h : AssetFails setup r s cause) :
    s.shelf.disk.isFile (setup.store.pathFor r.key) = false := by
  cases hf : s.shelf.disk.isFile (setup.store.pathFor r.key) with
  | false => rfl
  | true =>
      unfold AssetFails storeAnswer at h
      rw [Store.ensure_of_found hf] at h
      cases h

theorem AssetFails.line_of_cause (hc : setup.collaborators.Unlocated)
    (h : AssetFails setup r s cause) : cause.line? = none := by
  obtain ⟨hensures, -⟩ := ensures_and_materialize_eq setup r s
  rw [h] at hensures
  refine hensures.line_of_error fun failure hfailure => ?_
  obtain ⟨⟨role, text⟩, hint, line⟩ := r
  cases role with
  | voice => exact hc.speech _ _ _ _ hfailure
  | sound => exact hc.sound _ _ _ _ _ hfailure

/-- How a request reports a cause without a line. -/
theorem failure_of_none (h : cause.line? = none) :
    r.failure cause = if cause.isCancelled then .atLine r.line cause
      else .generationFailed r.line r.key.label cause := by
  unfold Request.failure
  split
  · cases h
  · rw [Failure.locate_of_none h]

theorem line_of_probe (hc : setup.collaborators.Unlocated)
    (h : Work.probe setup.collaborators path s = .error cause t) : cause.line? = none := by
  unfold Work.probe at h
  split at h
  · cases h
  · next surroundings hask =>
      cases h
      refine hc.probe path s.shelf.disk s.surroundings.cancelled s.surroundings.state cause ?_
      exact congrArg Prod.fst hask

variable [Scalar R]

/-- The length of a file cannot be had: it is not measured, or it is none that can be played. -/
inductive MeasureFails (setup : Setup R σ) (path : String) (s : Session R σ) : Failure R → Prop
  | probe {cause : Failure R} {t : Session R σ}
      (h : Work.probe setup.collaborators path s = .error cause t) : MeasureFails setup path s cause
  | unplayable {secs : R} {t : Session R σ}
      (h : Work.probe setup.collaborators path s = .ok secs t) (hl : ¬ Scalar.IsLength secs) :
      MeasureFails setup path s (.unplayable path secs)

theorem measure_eq_error (h : measure setup path number s = .error failure t) :
    ∃ cause, MeasureFails setup path s cause ∧ failure = cause.locate number := by
  unfold measure at h
  rcases Work.bind_eq_error.mp h with hprobe | ⟨secs, u, hprobe, hrest⟩
  · obtain ⟨cause, hcause, rfl⟩ := Work.atLine_eq_error.mp hprobe
    exact ⟨cause, .probe hcause, rfl⟩
  · by_cases hl : Scalar.IsLength secs
    · rw [if_pos hl] at hrest
      cases hrest
    · rw [if_neg hl] at hrest
      cases hrest
      exact ⟨_, .unplayable (Work.atLine_eq_ok.mp hprobe) hl, rfl⟩

theorem MeasureFails.line_of_cause (hc : setup.collaborators.Unlocated)
    (h : MeasureFails setup path s cause) : cause.line? = none := by
  cases h with
  | probe h => exact line_of_probe hc h
  | unplayable h hl => rfl

/-- A track cannot be placed: its loop cannot be measured, or cannot cover the span. -/
inductive PlacementFails (setup : Setup R σ) (p : Progress R) (track : Track R)
    (s : Session R σ) : Failure R → Prop
  | measuring {cause : Failure R} (hspan : ¬ p.clock - track.start ≤ Scalar.millionth)
      (hnew : p.loops.lookup track.path = none) (h : MeasureFails setup track.path s cause) :
      PlacementFails setup p track s cause
  | covering {number : Nat} {secs : R} {q : Progress R} {t : Session R σ} {cause : Failure R}
      (hspan : ¬ p.clock - track.start ≤ Scalar.millionth)
      (hloop : loopLength setup p track.path number s = .ok (secs, q) t)
      (h : tileFrom secs track.start (p.clock - track.start) = .error cause) :
      PlacementFails setup p track s cause

variable {p : Progress R} {track : Track R}

theorem flush_eq_error (h : flush setup p track number s = .error failure t) :
    ∃ cause, PlacementFails setup p track s cause ∧ failure = cause.locate number := by
  unfold flush at h
  by_cases hspan : p.clock - track.start ≤ Scalar.millionth
  · simp only [hspan, if_true] at h
    cases h
  · simp only [hspan, if_false] at h
    rcases Work.bind_eq_error.mp h with hloop | ⟨⟨secs, q⟩, u, hloop, hrest⟩
    · unfold loopLength at hloop
      cases hk : p.loops.lookup track.path with
      | some known =>
          rw [hk] at hloop
          cases hloop
      | none =>
          rw [hk] at hloop
          rcases Work.bind_eq_error.mp hloop with hmeasure | ⟨secs, u, -, hrest⟩
          · obtain ⟨cause, hcause, rfl⟩ := measure_eq_error hmeasure
            exact ⟨cause, .measuring hspan hk hcause, rfl⟩
          · cases hrest
    · cases htile : tileFrom secs track.start (p.clock - track.start) with
      | ok tiles =>
          simp only [htile] at hrest
          cases hrest
      | error cause =>
          simp only [htile] at hrest
          cases hrest
          exact ⟨cause, .covering hspan hloop htile, rfl⟩

theorem PlacementFails.line_of_cause (hc : setup.collaborators.Unlocated)
    (h : PlacementFails setup p track s cause) : cause.line? = none := by
  cases h with
  | measuring hspan hnew h => exact h.line_of_cause hc
  | covering hspan hloop h =>
      obtain rfl := tileFrom_eq_error h
      rfl

end Causes

section Workers

variable {setup : Setup R σ} {rs : List (Request R)} {order : List Nat} {i : Nat}
  {outcomes : List (Nat × Except (Failure R) String)} {outcome : Except (Failure R) String}
  {lines : List (ScriptLine R)} {r : Request R} {s t : Session R σ} {failure : Failure R}

theorem eq_or_eq_of_earlier {best : Option (Failure R)} {other : Failure R}
    (h : earlier best other = some failure) : best = some failure ∨ other = failure := by
  unfold earlier at h
  split at h
  · cases h
    exact .inr rfl
  · split at h
    · split at h <;> cases h
      · exact .inr rfl
      · exact .inl rfl
    · cases h
      exact .inr rfl
    · cases h
      exact .inl rfl

/-- The first failure of some outcomes is one of them. -/
theorem mem_of_firstFailure {α : Type} {outcomes : List (Except (Failure R) α)}
    (h : firstFailure outcomes = some failure) : .error failure ∈ outcomes := by
  have hfold : ∀ best : Option (Failure R), outcomes.foldl better best = some failure →
      best = some failure ∨ .error failure ∈ outcomes := by
    clear h
    induction outcomes with
    | nil => exact fun best hbest => .inl hbest
    | cons first rest ih =>
        intro best hbest
        rcases ih _ hbest with hnext | hrest
        · cases first with
          | ok a => exact .inl hnext
          | error other =>
              rcases eq_or_eq_of_earlier hnext with hbest | rfl
              · exact .inl hbest
              · exact .inr List.mem_cons_self
        · exact .inr (List.mem_cons_of_mem _ hrest)
  rw [firstFailure_eq] at h
  exact (hfold none h).resolve_left (by simp)

/-- Workers go on behind failures. -/
theorem runRequests_ne_error (setup : Setup R σ) (rs : List (Request R)) (order : List Nat)
    (s t : Session R σ) (failure : Failure R) :
    runRequests setup rs order s ≠ .error failure t := by
  induction order generalizing s with
  | nil => exact nofun
  | cons i rest ih =>
      rw [runRequests_cons]
      intro h
      cases hr : rs[i]? with
      | none =>
          rw [hr] at h
          exact ih s h
      | some r =>
          rw [hr] at h
          rcases Work.bind_eq_error.mp h with houtcome | ⟨outcome, u, -, h⟩
          · unfold Work.outcome at houtcome
            split at houtcome <;> cases houtcome
          · rcases Work.bind_eq_error.mp h with hrest | ⟨more, v, -, h⟩
            · exact ih u hrest
            · cases h

/-- Where the outcomes of workers come from, by induction on their order. -/
theorem exists_of_mem_runRequests (h : runRequests setup rs order s = .ok outcomes t)
    (hmem : (i, outcome) ∈ outcomes) :
    ∃ first rest earlier r u v, order = first ++ i :: rest ∧ rs[i]? = some r ∧
      runRequests setup rs first s = .ok earlier u ∧
      Work.outcome (materialize setup r) u = .ok outcome v := by
  induction order generalizing s outcomes with
  | nil =>
      cases h
      cases hmem
  | cons j order ih =>
      rw [runRequests_cons] at h
      cases hj : rs[j]? with
      | none =>
          rw [hj] at h
          obtain ⟨first, rest, earlier, r, u, v, rfl, hr, hfirst, houtcome⟩ := ih h hmem
          refine ⟨j :: first, rest, earlier, r, u, v, rfl, hr, ?_, houtcome⟩
          rw [runRequests_cons, hj]
          exact hfirst
      | some r' =>
          rw [hj] at h
          obtain ⟨outcome', w, houtcome', h⟩ := Work.bind_eq_ok.mp h
          obtain ⟨more, x, hmore, h⟩ := Work.bind_eq_ok.mp h
          cases h
          rcases List.mem_cons.mp hmem with heq | hmem
          · cases heq
            exact ⟨[], order, [], r', s, w, rfl, hj, rfl, houtcome'⟩
          · obtain ⟨first, rest, earlier, r, u, v, rfl, hr, hfirst, houtcome⟩ := ih hmore hmem
            refine ⟨j :: first, rest, (j, outcome') :: earlier, r, u, v, rfl, hr, ?_, houtcome⟩
            rw [runRequests_cons, hj]
            exact Work.bind_eq_ok.mpr ⟨_, w, houtcome', Work.bind_eq_ok.mpr ⟨_, u, hfirst, rfl⟩⟩

variable [Scalar R]

/-- Workers fail with an asset that one of them has asked for. -/
theorem prefetch_eq_error (hc : checkStructure lines = .ok ()) (hw : 1 < setup.workers)
    (h : prefetch setup lines s = .error failure t) :
    ∃ r ∈ requests lines, ∃ u cause, Asked setup lines s r u ∧ AssetFails setup r u cause ∧
      failure = r.failure cause := by
  unfold prefetch at h
  rw [Work.bind_apply_of_ok (Work.get_apply s)] at h
  rcases Work.bind_eq_error.mp h with hrun | ⟨outcomes, u, hrun, h⟩
  · exact absurd hrun (runRequests_ne_error _ _ _ _ _ _)
  · cases hfirst : firstFailure ((List.range (pending setup lines s).length).filterMap
        (List.lookup · outcomes)) with
    | none =>
        unfold pending at hfirst
        rw [hfirst] at h
        cases h
    | some found =>
        have hmem := mem_of_firstFailure hfirst
        unfold pending at hfirst
        rw [hfirst] at h
        cases h
        obtain ⟨i, -, hlookup⟩ := List.mem_filterMap.mp hmem
        obtain ⟨noted, later, rfl, -⟩ := List.lookup_eq_some_iff.mp hlookup
        obtain ⟨before, after, earlier, r, v, w, horder, hr, hbefore, houtcome⟩ :=
          exists_of_mem_runRequests hrun (List.mem_append_right noted List.mem_cons_self)
        have hrequest := List.mem_of_mem_filter (List.mem_of_getElem? hr)
        unfold Work.outcome at houtcome
        split at houtcome
        · cases houtcome
        · next hmade =>
            cases houtcome
            obtain ⟨cause, hcause, rfl⟩ := materialize_eq_error hmade
            exact ⟨r, hrequest, v, cause, .worker hc hw horder hr hbefore, hcause, rfl⟩

omit [Scalar R] in
/-- A request is that of the first line that mentions its asset. -/
theorem exists_first_mention (h : r ∈ requests lines) :
    ∃ before line after, lines = before ++ line :: after ∧ line.request? = some r ∧
      ∀ earlier ∈ before, earlier.key? ≠ some r.key := by
  have hfind := mem_requests_iff.mp h
  unfold mentions at hfind
  rw [List.find?_filterMap] at hfind
  obtain ⟨line, hline, hr⟩ := Option.bind_eq_some_iff.mp hfind
  obtain ⟨-, before, after, rfl, hbefore⟩ := List.find?_eq_some_iff_append.mp hline
  refine ⟨before, line, after, rfl, hr, fun earlier hearlier hkey => ?_⟩
  obtain ⟨r', hr', hsame⟩ := Option.map_eq_some_iff.mp (earlier.key?_eq.symm.trans hkey)
  have hnot := hbefore earlier hearlier
  simp [hr', hsame] at hnot

end Workers

variable [Scalar R]

/-- What a failure of a build comes from: the responsible line, the cause, and the failure that is
reported for it. -/
inductive Blames (setup : Setup R σ) (lines : List (ScriptLine R)) (s : Session R σ) :
    ScriptLine R → Failure R → Failure R → Prop
  /-- The first line that the structure check refuses. -/
  | refused {before after : List (ScriptLine R)} {line : ScriptLine R} {failure : Failure R}
      (hlines : lines = before ++ line :: after) (hbefore : checkStructure before = .ok ())
      (h : checkStructure (before ++ [line]) = .error failure) :
      Blames setup lines s line failure failure
  /-- The first line that mentions an asset which cannot be had. -/
  | generation {before after : List (ScriptLine R)} {line : ScriptLine R} {r : Request R}
      {u : Session R σ} {cause : Failure R} (hlines : lines = before ++ line :: after)
      (hfirst : ∀ earlier ∈ before, earlier.key? ≠ some r.key) (hr : line.request? = some r)
      (hasked : Asked setup lines s r u) (h : AssetFails setup r u cause) :
      Blames setup lines s line cause (if cause.isCancelled then .atLine line.line cause
        else .generationFailed line.line r.key.label cause)
  /-- A voice whose file cannot be measured. -/
  | voice {before : List (ScriptLine R)} {number : Nat} {pan : R} {phrase : String}
      {p : Progress R} {t u v : Session R σ} {path : String} {cause : Failure R}
      (hcomes : ComesTo setup lines s before ⟨number, .voice pan phrase⟩ p t)
      (hcheck : Work.checkpoint setup.collaborators "timeline build" t = .ok () u)
      (hmade : materialize setup ⟨⟨.voice, phrase⟩, none, number⟩ u = .ok path v)
      (h : MeasureFails setup path v cause) :
      Blames setup lines s ⟨number, .voice pan phrase⟩ cause (.atLine number cause)
  /-- The stop of a track that cannot be placed. -/
  | stop {before : List (ScriptLine R)} {number : Nat} {description : String} {p : Progress R}
      {track : Track R} {t u : Session R σ} {cause : Failure R}
      (hcomes : ComesTo setup lines s before ⟨number, .backgroundStop description⟩ p t)
      (hcheck : Work.checkpoint setup.collaborators "timeline build" t = .ok () u)
      (htrack : p.live.find? (·.description = description) = some track)
      (h : PlacementFails setup (p.drop description) track u cause) :
      Blames setup lines s ⟨number, .backgroundStop description⟩ cause (.atLine number cause)
  /-- The start of a track that no later line stops and that cannot be placed at the end. -/
  | left {before after : List (ScriptLine R)} {p q : Progress R} {front back : List (Track R)}
      {track : Track R} {v t u : Session R σ} {cause : Failure R}
      (hc : checkStructure lines = .ok ()) (hopens : Opens setup lines s v)
      (hcommands : commands setup lines v = .ok p t)
      (hlines : lines
        = before ++ ⟨track.line, .backgroundStart track.pan track.description⟩ :: after)
      (hafter : ∀ line ∈ after, Clips.isStop track.description line = false)
      (hlive : p.live = front ++ track :: back)
      (hfront : front.foldlM (flushLeft setup) { p with live := [] } t = .ok q u)
      (h : PlacementFails setup q track u cause) :
      Blames setup lines s ⟨track.line, .backgroundStart track.pan track.description⟩ cause
        (.atLine track.line cause)
  /-- The next line to run where work is given up between commands. -/
  | interrupted {before : List (ScriptLine R)} {line : ScriptLine R} {p : Progress R}
      {t u : Session R σ} {cause : Failure R} (hcomes : ComesTo setup lines s before line p t)
      (h : Work.checkpoint setup.collaborators "timeline build" t = .error cause u) :
      Blames setup lines s line cause (.atLine line.line cause)

variable {setup : Setup R σ} {lines before after : List (ScriptLine R)} {line : ScriptLine R}
  {p : Progress R} {s t u v : Session R σ} {failure : Failure R}

omit [Scalar R] in
theorem line_of_checkpoint {what : String}
    (h : Work.checkpoint setup.collaborators what s = .error failure t) :
    failure.line? = none := by
  unfold Work.checkpoint at h
  dsimp only at h
  split at h <;> cases h
  rfl

/-- A request that a command fails with is the first one for its asset, because a request that has
been answered leaves the asset where it is found. -/
theorem blames_of_materialize {r : Request R} (hunlocated : setup.collaborators.Unlocated)
    (hcomes : ComesTo setup lines s before line p t)
    (hcheck : Work.checkpoint setup.collaborators "timeline build" t = .ok () u)
    (hr : line.request? = some r) (h : materialize setup r u = .error failure v) :
    ∃ cause, Blames setup lines s line cause failure := by
  obtain ⟨cause, hcause, rfl⟩ := materialize_eq_error h
  obtain @⟨after, w, hc, hlines, hopens, hbefore⟩ := id hcomes
  have hfirst : ∀ earlier ∈ before, earlier.key? ≠ some r.key := by
    intro earlier hearlier hkey
    obtain ⟨r', hr', hsame⟩ := Option.map_eq_some_iff.mp (earlier.key?_eq.symm.trans hkey)
    have hmention : r' ∈ mentions before := List.mem_filterMap.mpr ⟨earlier, hearlier, hr'⟩
    have hfound := isFile_of_commands hbefore hmention
    have hensues := Work.upto_of_ok hcheck (ensues_checkpoint setup "timeline build" t)
    have hlater := hensues.isFile hfound
    rw [hsame, hcause.absent] at hlater
    cases hlater
  rw [failure_of_none (hcause.line_of_cause hunlocated), ScriptLine.line_of_request? hr]
  exact ⟨cause, .generation hlines hfirst hr (.command hcomes hr hcheck) hcause⟩

/-- A failure of a command, by its cases. -/
theorem blames_of_apply (hunlocated : setup.collaborators.Unlocated)
    (hcomes : ComesTo setup lines s before line p t)
    (hcheck : Work.checkpoint setup.collaborators "timeline build" t = .ok () u)
    (h : apply setup p line u = .error failure v) :
    ∃ cause, Blames setup lines s line cause failure := by
  rw [apply_of_rechecked hcomes.recheck] at h
  obtain ⟨number, command⟩ := line
  cases command with
  | voice pan phrase =>
      rcases Work.bind_eq_error.mp h with hfailed | ⟨path, w, hmade, h⟩
      · exact blames_of_materialize hunlocated hcomes hcheck rfl hfailed
      · rcases Work.bind_eq_error.mp h with hmeasure | ⟨secs, x, -, h⟩
        · obtain ⟨cause, hcause, rfl⟩ := measure_eq_error hmeasure
          rw [Failure.locate_of_none (hcause.line_of_cause hunlocated)]
          exact ⟨cause, .voice hcomes hcheck hmade hcause⟩
        · cases h
  | sound pan duration description =>
      rcases Work.bind_eq_error.mp h with hfailed | ⟨path, w, hmade, h⟩
      · exact blames_of_materialize hunlocated hcomes hcheck rfl hfailed
      · cases h
  | backgroundStart pan description =>
      rcases Work.bind_eq_error.mp h with hfailed | ⟨path, w, hmade, h⟩
      · exact blames_of_materialize hunlocated hcomes hcheck rfl hfailed
      · cases h
  | backgroundStop description =>
      obtain @⟨after, w, hc, hlines, hopens, hbefore⟩ := id hcomes
      obtain ⟨track, htrack, -⟩ := exists_find?_live (hlines ▸ hc) hbefore
      rw [perform_backgroundStop_eq, htrack] at h
      obtain ⟨cause, hcause, rfl⟩ := flush_eq_error h
      rw [Failure.locate_of_none (hcause.line_of_cause hunlocated)]
      exact ⟨cause, .stop hcomes hcheck htrack hcause⟩
  | wait duration => cases h

theorem blames_of_commands (hunlocated : setup.collaborators.Unlocated)
    (hc : checkStructure lines = .ok ()) (hopens : Opens setup lines s u)
    (h : commands setup lines u = .error failure t) :
    ∃ line cause, Blames setup lines s line cause failure := by
  obtain ⟨before, line, after, p, v, hlines, hbefore, hstep⟩ := Work.foldlM_eq_error.mp h
  have hcomes : ComesTo setup lines s before line p v := ⟨hc, hlines, hopens, hbefore⟩
  unfold step at hstep
  rcases Work.bind_eq_error.mp hstep with hcheck | ⟨⟨⟩, w, hcheck, hstep⟩
  · obtain ⟨cause, hcause, rfl⟩ := Work.atLine_eq_error.mp hcheck
    rw [Failure.locate_of_none (line_of_checkpoint hcause)]
    exact ⟨line, cause, .interrupted hcomes hcause⟩
  · rcases Work.bind_eq_error.mp hstep with happly | ⟨q, x, -, hstep⟩
    · have hchecked := Work.atLine_eq_ok.mp hcheck
      obtain ⟨cause, hblames⟩ := blames_of_apply hunlocated hcomes hchecked happly
      exact ⟨line, cause, hblames⟩
    · cases hstep

theorem blames_of_flushAll (hunlocated : setup.collaborators.Unlocated)
    (hc : checkStructure lines = .ok ()) (hopens : Opens setup lines s v)
    (hcommands : commands setup lines v = .ok p u) (h : flushAll setup p u = .error failure t) :
    ∃ line cause, Blames setup lines s line cause failure := by
  obtain ⟨front, track, back, q, w, hlive, hfront, hleft⟩ := Work.foldlM_eq_error.mp h
  have hmem : track ∈ p.live := hlive ▸ List.mem_append_right front List.mem_cons_self
  have hwhole : checkStructure (lines ++ []) = .ok () := by rwa [List.append_nil]
  obtain ⟨before, after, hlines, hafter, -⟩ :=
    isStarted_of_mem_live hwhole hcommands track hmem
  rcases Work.bind_eq_error.mp hleft with hflush | ⟨q', x, -, hleft⟩
  · obtain ⟨cause, hcause, rfl⟩ := flush_eq_error hflush
    rw [Failure.locate_of_none (hcause.line_of_cause hunlocated)]
    exact ⟨_, cause, .left hc hopens hcommands hlines hafter hlive hfront hcause⟩
  · cases hleft

theorem finish_eq_error (h : finish p = .error failure) : p.timeline.check = .error failure := by
  unfold finish at h
  cases hc : (⟨p.clock, p.segments.toList⟩ : Timeline R).check with
  | ok u =>
      simp only [hc, bind, Except.bind] at h
      cases h
  | error cause =>
      simp only [hc, bind, Except.bind] at h
      cases h
      exact hc

/-- A failure behind the workers is one of the check at the end, or one that a line is blamed
for. -/
theorem blames_of_conclude (hunlocated : setup.collaborators.Unlocated)
    (hc : checkStructure lines = .ok ()) (hopens : Opens setup lines s u)
    (h : conclude setup lines u = .error failure t) :
    (∃ p, run setup lines u = .ok p t ∧ p.timeline.check = .error failure) ∨
      ∃ line cause, Blames setup lines s line cause failure := by
  rcases Work.bind_eq_error.mp h with hrun | ⟨p, v, hrun, h⟩
  · rcases Work.bind_eq_error.mp hrun with hcommands | ⟨p, v, hcommands, hflush⟩
    · exact .inr (blames_of_commands hunlocated hc hopens hcommands)
    · exact .inr (blames_of_flushAll hunlocated hc hopens hcommands hflush)
  · cases hf : finish p with
    | ok result =>
        simp only [hf] at h
        cases h
    | error cause =>
        simp only [hf] at h
        cases h
        exact .inl ⟨p, hrun, finish_eq_error hf⟩

theorem blames_of_prefetch (hunlocated : setup.collaborators.Unlocated)
    (hc : checkStructure lines = .ok ()) (hw : 1 < setup.workers)
    (h : prefetch setup lines s = .error failure t) :
    ∃ line cause, Blames setup lines s line cause failure := by
  obtain ⟨r, hr, u, cause, hasked, hcause, rfl⟩ := prefetch_eq_error hc hw h
  obtain ⟨before, line, after, hlines, hrequest, hfirst⟩ := exists_first_mention hr
  rw [failure_of_none (hcause.line_of_cause hunlocated), ScriptLine.line_of_request? hrequest]
  exact ⟨line, cause, .generation hlines hfirst hrequest hasked hcause⟩

/-- A blamed line is named by the failure. -/
theorem Blames.line_of_failure {cause : Failure R} (h : Blames setup lines s line cause failure) :
    failure.line? = some line.line := by
  cases h with
  | refused hlines hbefore h => exact line_of_refused hbefore h
  | generation => split <;> rfl
  | voice | stop | left | interrupted => rfl

/-- Giving up stays giving up. -/
theorem Blames.isCancelled_eq {cause : Failure R} (h : Blames setup lines s line cause failure) :
    failure.isCancelled = cause.isCancelled := by
  cases h with
  | generation =>
      split
      · rfl
      · next hcause => simpa [Failure.isCancelled] using hcause
  | refused | voice | stop | left | interrupted => rfl

end Build

/-- A text says `line` with the number of a line. -/
def NamesLine (line : Nat) (text : String) : Prop :=
  ("line " ++ line.repr).toList <:+: text.toList

theorem NamesLine.opening {line : Nat} {opening : String} (front : String)
    (h : opening = front ++ "line ") : NamesLine line (opening ++ line.repr) := by
  subst h
  exact ⟨front.toList, [], by simp⟩

theorem NamesLine.append {line : Nat} {text : String} (h : NamesLine line text) (more : String) :
    NamesLine line (text ++ more) := by
  unfold NamesLine at h ⊢
  have hprefix : text.toList <+: (text ++ more).toList := by
    rw [String.toList_append]
    exact List.prefix_append _ _
  exact h.trans hprefix.isInfix

/-- A failure that knows its line says so in its text. -/
theorem Failure.namesLine_message {failure : Failure Float} {line : Nat}
    (h : failure.line? = some line) : NamesLine line failure.message := by
  -- Each text opens with its number, and the rest is put behind it piece by piece.
  cases failure with
  | malformedLine _ reason text =>
      cases h
      have hopening : NamesLine line ("malformed line " ++ line.repr) :=
        .opening "malformed " (by decide)
      have hmessage :=
        ((((hopening.append ": ").append reason).append ": '").append text).append "'"
      exact hmessage
  | invalidDuration _ value =>
      cases h
      have hopening : NamesLine line ("invalid duration on line " ++ line.repr) :=
        .opening "invalid duration on " (by decide)
      have hmessage := (hopening.append ": ").append (Style.plain.text value)
      exact hmessage
  | invalidPan _ value =>
      cases h
      have hopening : NamesLine line ("invalid pan on line " ++ line.repr) :=
        .opening "invalid pan on " (by decide)
      have hmessage :=
        ((hopening.append ": ").append (Style.plain.text value)).append " (expected -1..=1)"
      exact hmessage
  | duplicateTrack _ description =>
      cases h
      have hopening : NamesLine line ("duplicate background track on line " ++ line.repr) :=
        .opening "duplicate background track on " (by decide)
      have hmessage := ((hopening.append ": '").append description).append "' is already playing"
      exact hmessage
  | unknownTrack _ description =>
      cases h
      have hopening : NamesLine line ("unknown background track on line " ++ line.repr) :=
        .opening "unknown background track on " (by decide)
      have hmessage := ((hopening.append ": '").append description).append "' was never started"
      exact hmessage
  | generationFailed _ key cause =>
      cases h
      have hopening : NamesLine line ("generation failed on line " ++ line.repr) :=
        .opening "generation failed on " (by decide)
      have hmessage := (((hopening.append " for '").append key).append "': ").append cause.message
      exact hmessage
  | atLine _ cause =>
      cases h
      have hopening : NamesLine line ("line " ++ line.repr) :=
        .opening "" (by decide)
      have hmessage := (hopening.append ": ").append cause.message
      exact hmessage
  | _ => cases h

/-- The check of a timeline, by contrast, has no line to name. -/
theorem line_of_checkSegments {R : Type} [Scalar R] {total : R} {index : Nat}
    {segments : List (Segment R)} {failure : Failure R}
    (h : checkSegments total index segments = .error failure) : failure.line? = none := by
  induction segments generalizing index with
  | nil => cases h
  | cons first rest ih =>
      unfold checkSegments at h
      split at h
      · exact ih h
      · cases h
        rfl

/-- **Every failure names its line.** A build that fails before the check of its timeline fails with
a line to blame. The failure names that line and says so in its text, and it is a request to give
up where its cause is one. This holds for any number of workers, whoever comes first, and whenever
giving up is requested. -/
theorem build_blames_line (setup : Setup Float σ) (hunlocated : setup.collaborators.Unlocated)
    (lines : List (ScriptLine Float)) (s t : Session Float σ) (failure : Failure Float)
    (h : build setup lines s = .error failure t) :
    (checkStructure lines = .ok () ∧ ∃ u p, Build.Opens setup lines s u ∧
      Build.run setup lines u = .ok p t ∧ p.timeline.check = .error failure) ∨
    ∃ line cause, Build.Blames setup lines s line cause failure ∧
      failure.line? = some line.line ∧
      NamesLine line.line failure.message ∧
      failure.isCancelled = cause.isCancelled := by
  have hcases : (checkStructure lines = .ok () ∧ ∃ u p, Build.Opens setup lines s u ∧
      Build.run setup lines u = .ok p t ∧ p.timeline.check = .error failure) ∨
      ∃ line cause, Build.Blames setup lines s line cause failure := by
    cases hc : checkStructure lines with
    | error refusal =>
        rw [build_of_refused hc] at h
        cases h
        obtain ⟨before, line, after, hlines, hbefore, hrefused⟩ := exists_refused hc
        exact .inr ⟨line, failure, .refused hlines hbefore hrefused⟩
    | ok _ =>
        by_cases hw : 1 < setup.workers
        · rw [build_of_many_workers hc hw] at h
          rcases Work.bind_eq_error.mp h with hprefetch | ⟨⟨⟩, u, hprefetch, h⟩
          · exact .inr (Build.blames_of_prefetch hunlocated hc hw hprefetch)
          · have hopens : Build.Opens setup lines s u := .ahead hw hprefetch
            rcases Build.blames_of_conclude hunlocated hc hopens h with ⟨p, hrun, hcheck⟩ | hblames
            · exact .inl ⟨rfl, u, p, hopens, hrun, hcheck⟩
            · exact .inr hblames
        · rw [build_of_one_worker hc hw] at h
          have hopens : Build.Opens setup lines s s := .alone hw
          rcases Build.blames_of_conclude hunlocated hc hopens h with ⟨p, hrun, hcheck⟩ | hblames
          · exact .inl ⟨rfl, s, p, hopens, hrun, hcheck⟩
          · exact .inr hblames
  refine hcases.imp_right fun ⟨line, cause, hblames⟩ => ?_
  have hline := hblames.line_of_failure
  exact ⟨line, cause, hblames, hline, Failure.namesLine_message hline, hblames.isCancelled_eq⟩

/-- Two workers say hello and generate a boom, but the generator of sounds is busy. -/
def busySetup : Setup Float Unit := { twoWorkers with collaborators := busyCollaborators }

/-- The boom is on the second line, and that is the line that is blamed. -/
theorem build_blames_line_boom :
    busyCollaborators.Unlocated ∧
    ∃ failure t, build busySetup boomScript freshSession = .error failure t ∧
      ∃ line cause, Build.Blames busySetup boomScript freshSession line cause failure ∧
        line.line = 2 ∧ NamesLine 2 failure.message ∧ cause.isCancelled = false := by
  have hunlocated : busyCollaborators.Unlocated :=
    ⟨nofun, fun _ _ _ _ _ h => by cases h; rfl, nofun⟩
  have hfails : (((build busySetup boomScript).failure? freshSession).map fun failure =>
      (failure.line?, failure.isCancelled)) = some (some 2, false) := by decide +kernel
  obtain ⟨failure, hfailure, heq⟩ := Option.map_eq_some_iff.mp hfails
  obtain ⟨hline, hcancelled⟩ := Prod.mk.inj heq
  obtain ⟨t, h⟩ := Work.failure?_eq_some_iff.mp hfailure
  refine ⟨hunlocated, failure, t, h, ?_⟩
  rcases build_blames_line busySetup hunlocated boomScript freshSession t failure h with
    ⟨-, u, p, -, -, hcheck⟩ | ⟨line, cause, hblames, hnamed, htext, hsame⟩
  · rw [line_of_checkSegments hcheck] at hline
    cases hline
  · have htwo : line.line = 2 := Option.some.inj (hnamed.symm.trans hline)
    exact ⟨line, cause, hblames, htwo, htwo ▸ htext, hsame ▸ hcancelled⟩

end Soundstage
