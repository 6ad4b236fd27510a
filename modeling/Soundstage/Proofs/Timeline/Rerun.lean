import Soundstage.Proofs.Timeline.Answers
import Soundstage.Proofs.Timeline.Ensuing
import Soundstage.Proofs.Timeline.Requests
import Soundstage.Proofs.Timeline.Steps
import Soundstage.Proofs.Timeline.Workers

/-!
# Building again is cheap

A cache is visited by one build after the other, with any numbers of workers and any generators.
An asset that one visit has been answered with is never generated again. Once a script has been
built, every later visit finds all its assets: it goes through the same commands with the same
lengths, calls no generator, leaves the files as they are and answers the same.
-/

namespace Soundstage

variable {R σ : Type}

/-- The probe depends on the path and the bytes of a file only, and does not request to give up. -/
def Collaborators.ProbesBy (c : Collaborators R σ)
    (length : String → ByteArray → Except (Failure R) R) : Prop :=
  ∀ path disk content state, disk.read path = .ok content →
    (c.probe path disk false state).outcome = length path content ∧
      (c.probe path disk false state).cancels = false

/-- Between two moments of a session no file has changed, no generator has been called and nothing
has been counted as generated. -/
structure Session.Idles (s t : Session R σ) : Prop where
  disk : t.shelf.disk = s.shelf.disk
  generations : t.generations = s.generations
  generated : t.shelf.stats.generated = s.shelf.stats.generated
  cancelled : t.surroundings.cancelled = s.surroundings.cancelled

namespace Session.Idles

variable {s t u : Session R σ}

theorem refl (s : Session R σ) : s.Idles s := ⟨rfl, rfl, rfl, rfl⟩

theorem trans (h : s.Idles t) (h' : t.Idles u) : s.Idles u :=
  ⟨h'.disk.trans h.disk, h'.generations.trans h.generations, h'.generated.trans h.generated,
    h'.cancelled.trans h.cancelled⟩

end Session.Idles

namespace Build

/-- Two setups that share a cache and measure alike, and files that were there for the second. -/
structure Repeatable (first second : Setup R σ)
    (length : String → ByteArray → Except (Failure R) R) : Prop where
  root : second.store.root = first.store.root
  extension : second.store.extension = first.store.extension
  probes : first.collaborators.ProbesBy length
  probesAgain : second.collaborators.ProbesBy length
  meanwhile : ∀ state, (second.collaborators.meanwhile state).1 = false

/-- All assets that a moment of the first build finds are among the files of the second, and nobody
has requested to give up. -/
structure BackedBy (setup : Setup R σ) (disk : Disk) (s : Session R σ) : Prop where
  quiet : s.surroundings.cancelled = false
  files : ∀ key content, s.shelf.disk.Holds (setup.store.pathFor key) content →
    disk.Holds (setup.store.pathFor key) content

/-- The second build stands on these files, and nobody has requested to give up. -/
structure StandsOn (disk : Disk) (s : Session R σ) : Prop where
  quiet : s.surroundings.cancelled = false
  disk : s.shelf.disk = disk

variable {first second : Setup R σ} {length : String → ByteArray → Except (Failure R) R}
  {disk : Disk} {s t s' t' : Session R σ} {r : Request R} {path : String} {secs : R}

/-- What backs a moment backs the moments before it. -/
theorem BackedBy.before (h : BackedBy first disk t) (hensues : first.store.Ensues s t) :
    BackedBy first disk s where
  quiet := hensues.not_cancelled h.quiet
  files := fun key content hholds => h.files key content (hensues.keeps key content hholds)

theorem StandsOn.idles (h : StandsOn disk s) (hidles : s.Idles t) : StandsOn disk t :=
  ⟨hidles.cancelled.trans h.quiet, hidles.disk.trans h.disk⟩

/-- What was found is found again. -/
theorem BackedBy.isFile (h : BackedBy first disk t) {key : AssetKey}
    (hf : t.shelf.disk.isFile (first.store.pathFor key) = true) :
    disk.isFile (first.store.pathFor key) = true := by
  obtain ⟨content, hholds⟩ := Disk.isFile_iff.mp hf
  exact (h.files key content hholds).isFile

/-- A request that was answered is answered by the file. -/
theorem materialize_again (hr : Repeatable first second length)
    (h : materialize first r s = .ok path t) (ht : BackedBy first disk t)
    (hs' : StandsOn disk s') : ∃ t', materialize second r s' = .ok path t' ∧ s'.Idles t' := by
  have hfound := ht.isFile (isFile_of_materialize h)
  have hpath := Store.pathFor_congr hr.root hr.extension r.key
  rw [← hpath, ← hs'.disk] at hfound
  refine ⟨⟨s'.shelf.hit, s'.surroundings⟩, ?_, ⟨rfl, rfl, rfl, rfl⟩⟩
  unfold materialize
  rw [Store.ensure_of_found hfound, materialize_eq_ok h, hpath]

/-- A file that was measured is measured again. -/
theorem probe_again (hr : Repeatable first second length) {key : AssetKey}
    (hf : s.shelf.disk.isFile (first.store.pathFor key) = true)
    (h : Work.probe first.collaborators (first.store.pathFor key) s = .ok secs t)
    (ht : BackedBy first disk t) (hs' : StandsOn disk s') :
    ∃ t', Work.probe second.collaborators (first.store.pathFor key) s' = .ok secs t' ∧
      s'.Idles t' := by
  have hensues := Work.upto_of_ok h (ensues_probe first (first.store.pathFor key) s)
  have hs := ht.before hensues
  obtain ⟨content, hholds⟩ := Disk.isFile_iff.mp hf
  have hread : s'.shelf.disk.read (first.store.pathFor key) = .ok content := by
    rw [hs'.disk]
    exact (hs.files key content hholds).read
  obtain ⟨houtcome, -⟩ := hr.probes _ _ _ s.surroundings.state hholds.read
  obtain ⟨houtcome', hcancels'⟩ := hr.probesAgain _ _ _ s'.surroundings.state hread
  have hsecs : length (first.store.pathFor key) content = .ok secs := by
    unfold Work.probe at h
    simp only [Surroundings.ask, hs.quiet, houtcome] at h
    split at h
    · next hsplit =>
        cases h
        exact congrArg Prod.fst hsplit
    · cases h
  unfold Work.probe
  simp only [Surroundings.ask, hs'.quiet, houtcome', hsecs]
  refine ⟨_, rfl, rfl, ?_, rfl, ?_⟩
  · exact (generations_of_calls (s := s') rfl).trans (List.append_nil _)
  · simp [hs'.quiet, hcancels']

section Commands

variable [Scalar R] {p q : Progress R} {line : ScriptLine R} {track : Track R}

theorem measure_again (hr : Repeatable first second length) {key : AssetKey} {number : Nat}
    (hf : s.shelf.disk.isFile (first.store.pathFor key) = true)
    (h : measure first (first.store.pathFor key) number s = .ok secs t)
    (ht : BackedBy first disk t) (hs' : StandsOn disk s') :
    ∃ t', measure second (first.store.pathFor key) number s' = .ok secs t' ∧ s'.Idles t' := by
  obtain ⟨hprobe, hl⟩ := measure_eq_ok_iff.mp h
  obtain ⟨t', hprobe', hidles⟩ := probe_again hr hf hprobe ht hs'
  exact ⟨t', measure_eq_ok_iff.mpr ⟨hprobe', hl⟩, hidles⟩

theorem loopLength_again (hr : Repeatable first second length) {key : AssetKey} {number : Nat}
    (hf : s.shelf.disk.isFile (first.store.pathFor key) = true)
    (h : loopLength first p (first.store.pathFor key) number s = .ok (secs, q) t)
    (ht : BackedBy first disk t) (hs' : StandsOn disk s') :
    ∃ t', loopLength second p (first.store.pathFor key) number s' = .ok (secs, q) t' ∧
      s'.Idles t' := by
  rcases loopLength_eq_ok_iff.mp h with ⟨hk, rfl, rfl⟩ | ⟨hk, hmeasure, rfl⟩
  · exact ⟨s', loopLength_eq_ok_iff.mpr (.inl ⟨hk, rfl, rfl⟩), .refl s'⟩
  · obtain ⟨t', hmeasure', hidles⟩ := measure_again hr hf hmeasure ht hs'
    exact ⟨t', loopLength_eq_ok_iff.mpr (.inr ⟨hk, hmeasure', rfl⟩), hidles⟩

/-- The file of a track is an asset that is found. -/
def Track.IsPresent (setup : Setup R σ) (s : Session R σ) (track : Track R) : Prop :=
  ∃ key, track.path = setup.store.pathFor key ∧
    s.shelf.disk.isFile (setup.store.pathFor key) = true

omit [Scalar R] in
theorem Track.IsPresent.later (h : track.IsPresent first s) (hensues : first.store.Ensues s t) :
    track.IsPresent first t := by
  obtain ⟨key, hpath, hf⟩ := h
  exact ⟨key, hpath, hensues.isFile hf⟩

theorem flush_again (hr : Repeatable first second length) {number : Nat}
    (htrack : track.IsPresent first s) (h : flush first p track number s = .ok q t)
    (ht : BackedBy first disk t) (hs' : StandsOn disk s') :
    ∃ t', flush second p track number s' = .ok q t' ∧ s'.Idles t' := by
  obtain ⟨key, hpath, hf⟩ := htrack
  rcases flush_eq_ok_iff.mp h with ⟨hspan, rfl, rfl⟩ | ⟨hspan, secs, p', tiles, hloop, htile, rfl⟩
  · exact ⟨s', flush_eq_ok_iff.mpr (.inl ⟨hspan, rfl, rfl⟩), .refl s'⟩
  · rw [hpath] at hloop
    obtain ⟨t', hloop', hidles⟩ := loopLength_again hr hf hloop ht hs'
    rw [← hpath] at hloop'
    exact ⟨t', flush_eq_ok_iff.mpr (.inr ⟨hspan, secs, p', tiles, hloop', htile, rfl⟩), hidles⟩

/-- The files of all tracks that play are found. -/
def Progress.IsPresent (setup : Setup R σ) (s : Session R σ) (p : Progress R) : Prop :=
  ∀ track ∈ p.live, track.IsPresent setup s

omit [Scalar R] in
theorem Progress.IsPresent.later (h : p.IsPresent first s) (hensues : first.store.Ensues s t) :
    p.IsPresent first t := fun track htrack => (h track htrack).later hensues

/-- A command that went through goes through again, and the tracks behind it are present. -/
theorem apply_again (hr : Repeatable first second length) (hp : p.IsPresent first s)
    (h : apply first p line s = .ok q t) (ht : BackedBy first disk t) (hs' : StandsOn disk s') :
    q.IsPresent first t ∧ ∃ t', apply second p line s' = .ok q t' ∧ s'.Idles t' := by
  have hensues := Work.upto_of_ok h (upholds_apply (upholds_ensues first) p line s)
  have hpath := Store.pathFor_congr hr.root hr.extension
  obtain ⟨number, command⟩ := line
  cases command with
  | voice pan phrase =>
      obtain ⟨u, secs, hmade, hsecs, rfl⟩ := apply_voice_eq_ok_iff.mp h
      have hmeasured := Work.upto_of_ok hsecs (upholds_measure (upholds_ensues first) _ number u)
      obtain ⟨u', hmade', hidles⟩ := materialize_again hr hmade (ht.before hmeasured) hs'
      obtain ⟨t', hsecs', hidles'⟩ :=
        measure_again hr (isFile_of_materialize hmade) hsecs ht (hs'.idles hidles)
      refine ⟨hp.later hensues, t', apply_voice_eq_ok_iff.mpr ?_, hidles.trans hidles'⟩
      rw [hpath]
      exact ⟨u', secs, hmade', hsecs', rfl⟩
  | sound pan duration description =>
      obtain ⟨hlength, hmade, rfl⟩ := apply_sound_eq_ok_iff.mp h
      obtain ⟨t', hmade', hidles⟩ := materialize_again hr hmade ht hs'
      refine ⟨hp.later hensues, t', apply_sound_eq_ok_iff.mpr ?_, hidles⟩
      rw [hpath]
      exact ⟨hlength, hmade', rfl⟩
  | backgroundStart pan description =>
      obtain ⟨hnew, hmade, rfl⟩ := apply_backgroundStart_eq_ok_iff.mp h
      obtain ⟨t', hmade', hidles⟩ := materialize_again hr hmade ht hs'
      refine ⟨?_, t', apply_backgroundStart_eq_ok_iff.mpr ?_, hidles⟩
      · intro track htrack
        rcases List.mem_append.mp htrack with hold | hstarted
        · exact (hp track hold).later hensues
        · rw [List.mem_singleton.mp hstarted]
          exact ⟨_, rfl, isFile_of_materialize hmade⟩
      · rw [hpath]
        exact ⟨hnew, hmade', rfl⟩
  | backgroundStop description =>
      obtain ⟨track, hfind, hflush⟩ := apply_backgroundStop_eq_ok_iff.mp h
      obtain ⟨t', hflush', hidles⟩ :=
        flush_again hr (hp track (List.mem_of_find?_eq_some hfind)) hflush ht hs'
      obtain ⟨placed, loops, rfl⟩ := exists_clips_of_flush hflush
      refine ⟨?_, t', apply_backgroundStop_eq_ok_iff.mpr ⟨track, hfind, hflush'⟩, hidles⟩
      intro other hother
      exact (hp other (List.mem_of_mem_eraseP hother)).later hensues
  | wait duration =>
      obtain ⟨hpause, rfl, rfl⟩ := apply_wait_eq_ok_iff.mp h
      exact ⟨hp, s', apply_wait_eq_ok_iff.mpr ⟨hpause, rfl, rfl⟩, .refl s'⟩

theorem step_again (hr : Repeatable first second length) (hp : p.IsPresent first s)
    (h : step first p line s = .ok q t) (ht : BackedBy first disk t) (hs' : StandsOn disk s') :
    q.IsPresent first t ∧ ∃ t', step second p line s' = .ok q t' ∧ s'.Idles t' := by
  obtain ⟨p', u, hcheck, happly, rfl⟩ := step_eq_ok_iff.mp h
  have hensues := Work.upto_of_ok hcheck (ensues_checkpoint first "timeline build" s)
  let u' : Session R σ := { s' with surroundings := { s'.surroundings with
    cancelled := false, state := (second.collaborators.meanwhile s'.surroundings.state).2 } }
  have hcheck' : Work.checkpoint second.collaborators "timeline build" s' = .ok () u' := by
    unfold Work.checkpoint
    simp only [hr.meanwhile, hs'.quiet, Bool.or_false, Bool.false_eq_true, if_false]
    rfl
  have hidles : s'.Idles u' := ⟨rfl, rfl, rfl, hs'.quiet.symm⟩
  obtain ⟨hq, t', happly', hidles'⟩ :=
    apply_again hr (hp.later hensues) happly ht (hs'.idles hidles)
  exact ⟨hq, t', step_eq_ok_iff.mpr ⟨p', u', hcheck', happly', rfl⟩, hidles.trans hidles'⟩

/-- So do all commands, by induction on the script. -/
theorem steps_again (hr : Repeatable first second length) {lines : List (ScriptLine R)}
    (hp : p.IsPresent first s) (h : lines.foldlM (step first) p s = .ok q t)
    (ht : BackedBy first disk t) (hs' : StandsOn disk s') :
    q.IsPresent first t ∧
      ∃ t', lines.foldlM (step second) p s' = .ok q t' ∧ s'.Idles t' := by
  induction lines generalizing p s s' with
  | nil =>
      cases h
      exact ⟨hp, s', rfl, .refl s'⟩
  | cons line rest ih =>
      rw [List.foldlM_cons] at h ⊢
      obtain ⟨p', u, hstep, hrest⟩ := Work.bind_eq_ok.mp h
      have hensues := Work.upto_of_ok hrest
        (upholds_foldlM (upholds_ensues first) (upholds_step (upholds_ensues first)) rest p' u)
      obtain ⟨hp', u', hstep', hidles⟩ := step_again hr hp hstep (ht.before hensues) hs'
      obtain ⟨hq, t', hrest', hidles'⟩ := ih hp' hrest (hs'.idles hidles)
      exact ⟨hq, t', Work.bind_eq_ok.mpr ⟨p', u', hstep', hrest'⟩, hidles.trans hidles'⟩

/-- And the tracks that are left are placed again, by induction on them. -/
theorem flushLeft_again (hr : Repeatable first second length) {tracks : List (Track R)}
    (htracks : ∀ track ∈ tracks, track.IsPresent first s)
    (h : tracks.foldlM (flushLeft first) p s = .ok q t)
    (ht : BackedBy first disk t) (hs' : StandsOn disk s') :
    ∃ t', tracks.foldlM (flushLeft second) p s' = .ok q t' ∧ s'.Idles t' := by
  induction tracks generalizing p s s' with
  | nil =>
      cases h
      exact ⟨s', rfl, .refl s'⟩
  | cons track rest ih =>
      rw [List.foldlM_cons] at h ⊢
      obtain ⟨p', u, hflush, hrest⟩ := Work.bind_eq_ok.mp h
      have hafter := Work.upto_of_ok hrest
        (upholds_foldlM (upholds_ensues first) (upholds_flushLeft (upholds_ensues first)) rest p' u)
      have hensues := Work.upto_of_ok hflush (upholds_flushLeft (upholds_ensues first) p track s)
      obtain ⟨p'', v, hone, hq⟩ := Work.bind_eq_ok.mp hflush
      cases hq
      obtain ⟨u', hone', hidles⟩ :=
        flush_again hr (htracks track List.mem_cons_self) hone (ht.before hafter) hs'
      have hflush' : flushLeft second p track s' = .ok _ u' :=
        Work.bind_eq_ok.mpr ⟨p'', u', hone', rfl⟩
      obtain ⟨t', hrest', hidles'⟩ := ih
        (fun other hother => (htracks other (List.mem_cons_of_mem _ hother)).later hensues) hrest
        (hs'.idles hidles)
      exact ⟨t', Work.bind_eq_ok.mpr ⟨_, u', hflush', hrest'⟩, hidles.trans hidles'⟩

variable {lines : List (ScriptLine R)} {result : Timeline R × Report}

theorem conclude_again (hr : Repeatable first second length)
    (h : conclude first lines s = .ok result t) (ht : BackedBy first disk t)
    (hs' : StandsOn disk s') :
    ∃ t', conclude second lines s' = .ok result t' ∧ s'.Idles t' := by
  obtain ⟨p, u, v, hcommands, hflush, hfinish⟩ := conclude_eq_ok_iff.mp h
  have hensues := Work.upto_of_ok hflush (upholds_flushAll (upholds_ensues first) p u)
  obtain ⟨hp, u', hcommands', hidles⟩ :=
    steps_again hr (fun track htrack => by cases htrack) hcommands (ht.before hensues) hs'
  obtain ⟨t', hflush', hidles'⟩ := flushLeft_again hr hp hflush ht (hs'.idles hidles)
  exact ⟨t', conclude_eq_ok_iff.mpr ⟨p, u', v, hcommands', hflush', hfinish⟩,
    hidles.trans hidles'⟩

/-- Behind a build that has come to its end all assets of the script are found. -/
theorem isFile_of_mentions (h : conclude first lines s = .ok result t) (hr : r ∈ mentions lines) :
    t.shelf.disk.isFile (first.store.pathFor r.key) = true := by
  obtain ⟨p, u, q, hcommands, hflush, -⟩ := conclude_eq_ok_iff.mp h
  have hensues := Work.upto_of_ok hflush (upholds_flushAll (upholds_ensues first) p u)
  exact hensues.isFile (isFile_of_commands hcommands hr)

end Commands

end Build

/-- One build over a cache. -/
structure Visit (R σ : Type) where
  setup : Setup R σ
  lines : List (ScriptLine R)
  start : Session R σ

namespace Visit

variable [Scalar R] {v w x : Visit R σ} {key : AssetKey} {t : Session R σ}

/-- What comes of a visit. -/
def outcome (v : Visit R σ) : EStateM.Result (Failure R) (Session R σ) (Timeline R × Report) :=
  build v.setup v.lines v.start

/-- The session that a visit leaves behind, whether it succeeds or fails. -/
def finish (v : Visit R σ) : Session R σ := (build v.setup v.lines).behind v.start

/-- A visit comes before the next one to the same cache. Nothing else is common to the two, except
that no asset has been taken away or changed in between. -/
structure Precedes (v w : Visit R σ) : Prop where
  root : w.setup.store.root = v.setup.store.root
  extension : w.setup.store.extension = v.setup.store.extension
  keeps : ∀ key content, v.finish.shelf.disk.Holds (v.setup.store.pathFor key) content →
    w.start.shelf.disk.Holds (v.setup.store.pathFor key) content

/-- A request of a visit for an asset has been answered, be it with the asset that was found or with
the one that was generated and stored. -/
def Obtains (v : Visit R σ) (key : AssetKey) (t : Session R σ) : Prop :=
  ∃ r u path, Build.Asked v.setup v.lines v.start r u ∧ r.key = key ∧
    Build.materialize v.setup r u = .ok path t

/-- Nobody requests to give up before or between the commands of a visit. -/
def IsQuiet (v : Visit R σ) : Prop :=
  v.start.surroundings.cancelled = false ∧
    ∀ state, (v.setup.collaborators.meanwhile state).1 = false

/-- What is found behind one visit is found at the beginning of the next. -/
theorem Precedes.isFile (h : v.Precedes w)
    (hf : v.finish.shelf.disk.isFile (v.setup.store.pathFor key) = true) :
    w.start.shelf.disk.isFile (w.setup.store.pathFor key) = true := by
  obtain ⟨content, hholds⟩ := Disk.isFile_iff.mp hf
  rw [Store.pathFor_congr h.root h.extension]
  exact (h.keeps key content hholds).isFile

theorem Precedes.trans (h : v.Precedes w) (h' : w.Precedes x) : v.Precedes x where
  root := h'.root.trans h.root
  extension := h'.extension.trans h.extension
  keeps := by
    intro key content hholds
    have hpath := Store.pathFor_congr h.root h.extension key
    have hstart := h.keeps key content hholds
    rw [← hpath] at hstart ⊢
    have hensues := Build.upholds_build (Build.upholds_ensues w.setup) w.lines w.start
    exact h'.keeps key content (hensues.keeps key content hstart)

instance : Trans (@Precedes R σ _) Precedes Precedes := ⟨Precedes.trans⟩

/-- What one visit has obtained, the next one does not generate. -/
theorem Precedes.not_generatedSince (h : v.Precedes w) (hobtains : v.Obtains key t) :
    ¬ w.finish.GeneratedSince w.start key := by
  obtain ⟨r, u, path, hasked, rfl, hanswer⟩ := hobtains
  have hensues := Build.upholds_build (Build.upholds_ensues w.setup) w.lines w.start
  exact hensues.not_generatedSince (h.isFile (hasked.isFile_behind hanswer).1)

omit [Scalar R] in
/-- Where all assets of a script are found, workers have nothing to do. -/
theorem opens_of_isFile {setup : Setup R σ} {lines : List (ScriptLine R)} {s : Session R σ}
    (h : ∀ r ∈ mentions lines, s.shelf.disk.isFile (setup.store.pathFor r.key) = true) :
    Build.Opens setup lines s s := by
  by_cases hw : 1 < setup.workers
  · have hnone : Build.pending setup lines s = [] := by
      refine List.filter_eq_nil_iff.mpr fun r hr => ?_
      have hfound := h r ((firstRequests_sublist [] _).subset hr)
      simp [Store.lookup, hfound]
    have horder : setup.schedule.order 0 = [] :=
      List.Perm.eq_nil (setup.schedule.perm 0)
    refine .ahead hw ?_
    unfold Build.pending at hnone
    unfold Build.prefetch
    rw [Work.bind_apply_of_ok (Work.get_apply s), hnone, List.length_nil, horder]
    rfl
  · exact .alone hw

/-- A script that has been built is built again from the files. -/
theorem Precedes.builds_again (h : v.Precedes w)
    {length : String → ByteArray → Except (Failure R) R} {result : Timeline R × Report}
    (hv : v.outcome = .ok result t) (hquiet : t.surroundings.cancelled = false)
    (hlines : w.lines = v.lines) (hw : w.IsQuiet) (hprobes : v.setup.collaborators.ProbesBy length)
    (hprobes' : w.setup.collaborators.ProbesBy length) :
    ∃ t', w.outcome = .ok result t' ∧ w.start.Idles t' := by
  have hr : Build.Repeatable v.setup w.setup length :=
    ⟨h.root, h.extension, hprobes, hprobes', hw.2⟩
  have hfinish : v.finish = t := Work.behind_of_ok hv
  have hback : Build.BackedBy v.setup w.start.shelf.disk t :=
    ⟨hquiet, hfinish ▸ h.keeps⟩
  obtain ⟨hc, u, hopens, hconclude⟩ := build_eq_ok_iff.mp hv
  obtain ⟨t', hconclude', hidles⟩ :=
    Build.conclude_again hr hconclude hback (⟨hw.1, rfl⟩ : Build.StandsOn _ w.start)
  have hfound : ∀ r ∈ mentions w.lines,
      w.start.shelf.disk.isFile (w.setup.store.pathFor r.key) = true := by
    intro r hmem
    rw [hlines] at hmem
    exact h.isFile (hfinish ▸ Build.isFile_of_mentions hconclude hmem)
  refine ⟨t', build_eq_ok_iff.mpr ⟨hlines ▸ hc, w.start, opens_of_isFile hfound, ?_⟩, hidles⟩
  rw [hlines]
  exact hconclude'

end Visit

/-- **Building again is cheap.** In any sequence of visits to a cache, each with scripts, workers,
generators and counters of its own, an asset that has been obtained is not generated again: not in
the rest of the visit, and in no later one. And where a script has been built, every later visit
that measures alike builds the same from the files as they are, without calling a generator. -/
theorem Visit.building_again_is_cheap [Scalar R] (visits : List (Visit R σ))
    (h : visits.IsChain Visit.Precedes) :
    (∀ v ∈ visits, ∀ key t, v.Obtains key t → ¬ v.finish.GeneratedSince t key) ∧
    visits.Pairwise fun v w =>
      (∀ key t, v.Obtains key t → ¬ w.finish.GeneratedSince w.start key) ∧
      ∀ length result t, v.outcome = .ok result t → t.surroundings.cancelled = false →
        w.lines = v.lines → w.IsQuiet → v.setup.collaborators.ProbesBy length →
        w.setup.collaborators.ProbesBy length →
        ∃ t', w.outcome = .ok result t' ∧ w.start.Idles t' := by
  refine ⟨?_, (List.isChain_iff_pairwise.mp h).imp ?_⟩
  · rintro v - key t ⟨r, u, path, hasked, rfl, hanswer⟩
    exact (hasked.isFile_behind hanswer).2
  · intro v w hprecedes
    refine ⟨fun key t => hprecedes.not_generatedSince, ?_⟩
    intro length result t hv hquiet hlines hw hprobes hprobes'
    exact hprecedes.builds_again hv hquiet hlines hw hprobes hprobes'

theorem probesBy_constant (speech sound : Except (Failure Float) ByteArray)
    (length : Except (Failure Float) Float) :
    (constantCollaborators speech sound length).ProbesBy fun _ _ => length :=
  fun _ _ _ _ _ => ⟨rfl, rfl⟩

/-- Somebody says hello, but the boom cannot be generated. -/
def failedVisit : Visit Float Unit where
  setup := { steadySetup with collaborators := busyCollaborators }
  lines := boomScript
  start := freshSession

/-- The next visit with the same script, which finds the files as they were left. -/
def Visit.next (v : Visit Float Unit) (setup : Setup Float Unit) : Visit Float Unit where
  setup := setup
  lines := v.lines
  start := { freshSession with shelf := { disk := v.finish.shelf.disk } }

theorem Visit.precedes_next (v : Visit Float Unit) {setup : Setup Float Unit}
    (hroot : setup.store.root = v.setup.store.root)
    (hextension : setup.store.extension = v.setup.store.extension) : v.Precedes (v.next setup) :=
  ⟨hroot, hextension, fun _ _ h => h⟩

/-- Two workers try again. -/
def secondVisit : Visit Float Unit := failedVisit.next twoWorkers

/-- Another process builds once more. -/
def thirdVisit : Visit Float Unit :=
  secondVisit.next { steadySetup with store := ⟨"cache", "opus", 8⟩ }

/-- The failed visit has the greeting, so that the second one only generates the boom. The third one
generates nothing and builds the same. -/
theorem building_again_boom :
    [failedVisit, secondVisit, thirdVisit].IsChain Visit.Precedes ∧
    (∃ t, failedVisit.Obtains greeting t ∧ ¬ failedVisit.finish.GeneratedSince t greeting ∧
      ¬ secondVisit.finish.GeneratedSince secondVisit.start greeting) ∧
    ∃ result t t', secondVisit.outcome = .ok result t ∧ t.shelf.stats = ⟨2, 1⟩ ∧
      thirdVisit.outcome = .ok result t' ∧ thirdVisit.start.Idles t' := by
  have hchain : [failedVisit, secondVisit, thirdVisit].IsChain Visit.Precedes :=
    .cons_cons (failedVisit.precedes_next rfl rfl)
      (.cons_cons (secondVisit.precedes_next rfl rfl) (.singleton _))
  obtain ⟨hwithin, hlater⟩ := Visit.building_again_is_cheap _ hchain
  rw [List.pairwise_cons, List.pairwise_cons] at hlater
  obtain ⟨hfailed, hsecond, -⟩ := hlater
  have hanswer : (Build.materialize failedVisit.setup ⟨greeting, none, 1⟩).counts? freshSession
      = some ⟨0, 1⟩ := by decide +kernel
  have hbuilds : (build secondVisit.setup boomScript).counts? secondVisit.start = some ⟨2, 1⟩ := by
    decide +kernel
  have hquiet : secondVisit.finish.surroundings.cancelled = false :=
    Build.upholds_build (Build.upholds_quiet (calm_constant _ _ _)) boomScript _ rfl
  refine ⟨hchain, ?_, ?_⟩
  · obtain ⟨path, t, hmade, -⟩ := Work.counts?_eq_some_iff.mp hanswer
    have hnone : Build.commands failedVisit.setup [] freshSession
        = .ok { clock := Scalar.zero } freshSession := rfl
    have hobtains : failedVisit.Obtains greeting t :=
      ⟨_, freshSession, path, .command ⟨rfl, rfl, .alone (by decide), hnone⟩ rfl rfl, rfl, hmade⟩
    exact ⟨t, hobtains, hwithin failedVisit (by simp) greeting t hobtains,
      (hfailed secondVisit (by simp)).1 greeting t hobtains⟩
  · obtain ⟨result, t, hok, hstats⟩ := Work.counts?_eq_some_iff.mp hbuilds
    have hfinish : secondVisit.finish = t := Work.behind_of_ok hok
    obtain ⟨t', hagain, hidles⟩ := (hsecond thirdVisit (by simp)).2 _ result t hok
      (hfinish ▸ hquiet) rfl ⟨rfl, fun _ => rfl⟩ (probesBy_constant _ _ _)
      (probesBy_constant _ _ _)
    exact ⟨result, t, t', hok, hstats, hagain, hidles⟩

/-- Somebody says hello. -/
def helloScript : List (ScriptLine Float) := [⟨1, .voice 0 "Hello"⟩]

/-- Collaborators that speak without a sound. -/
def mutteringCollaborators : Collaborators Float Unit :=
  constantCollaborators (.ok ⟨#[]⟩) (.ok ⟨#[1]⟩) (.ok 2)

/-- A visit whose generator answers with no bytes at all. -/
def emptyVisit : Visit Float Unit where
  setup := { steadySetup with collaborators := mutteringCollaborators }
  lines := helloScript
  start := freshSession

/-- A visit whose generator answers, but whose asset cannot be moved to its place. -/
def blockedVisit : Visit Float Unit where
  setup := steadySetup
  lines := helloScript
  start := { freshSession with shelf := { disk := blockedDisk } }

instance {s t : Session R σ} {key : AssetKey} : Decidable (t.GeneratedSince s key) :=
  inferInstanceAs (Decidable (∃ record ∈ _, _))

/-- The generator of a visit answers, but the next visit generates the asset again. -/
def Visit.Regenerates (v w : Visit Float Unit) (key : AssetKey) : Prop :=
  v.Precedes w ∧
    (∃ content, (v.setup.collaborators.generate key none v.start.surroundings).1 = .ok content) ∧
    v.finish.GeneratedSince v.start key ∧ w.finish.GeneratedSince w.start key

/-- It is not enough that a generator has succeeded: what it gave has to be stored. Bytes that are
none are refused, and bytes that cannot be moved to their place are lost, so that the next visit
calls the generator again. -/
theorem Visit.not_obtained_by_generating :
    emptyVisit.Regenerates (emptyVisit.next steadySetup) greeting ∧
      blockedVisit.Regenerates (blockedVisit.next steadySetup) greeting := by
  constructor
  · exact ⟨emptyVisit.precedes_next rfl rfl, ⟨_, rfl⟩, by decide +kernel, by decide +kernel⟩
  · exact ⟨blockedVisit.precedes_next rfl rfl, ⟨_, rfl⟩, by decide +kernel, by decide +kernel⟩

end Soundstage
