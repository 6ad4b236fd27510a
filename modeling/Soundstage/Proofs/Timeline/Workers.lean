import Soundstage.Proofs.Timeline.Prefetch

/-!
# Generating ahead is only an optimisation

A build with several workers is compared with a build that has one. Behind the workers a session is
a twin of the one they began in, so that both builds run in lockstep; where a request has failed the
workers report what a single worker would have come to.
-/

namespace Soundstage

variable {R σ : Type}

/-- Every asset that is mentioned is requested. -/
theorem exists_mem_requests {lines : List (ScriptLine R)} {x : Request R}
    (hx : x ∈ mentions lines) : ∃ r ∈ requests lines, r.key = x.key := by
  cases hfind : (mentions lines).find? (·.key = x.key) with
  | none => exact absurd (List.find?_eq_none.mp hfind x hx) (by simp)
  | some r =>
      have hkey : r.key = x.key := by simpa using List.find?_some hfind
      rw [← hkey] at hfind
      exact ⟨r, mem_requests_iff.mpr hfind, hkey⟩

/-- So its key is one of those that are requested. -/
theorem key_mem_of_mentions (lines : List (ScriptLine R)) :
    ∀ x ∈ mentions lines, x.key ∈ (requests lines).map (·.key) := by
  intro x hx
  obtain ⟨r, hr, hkey⟩ := exists_mem_requests hx
  exact List.mem_map.mpr ⟨r, hr, hkey⟩

theorem Request.key_of_call {r r' : Request R} (h : r.call = r'.call) : r.key = r'.key := by
  obtain ⟨⟨role, text⟩, hint, line⟩ := r
  obtain ⟨⟨role', text'⟩, hint', line'⟩ := r'
  unfold call at h
  cases role <;> cases role' <;> cases h <;> rfl

namespace Build

variable {setup : Setup R σ} {answers : Answers R} {keys : List AssetKey}
  {lines : List (ScriptLine R)} {rest taken : List (Request R)} {start : Shelf}
  {s t t' u : Session R σ}

/-- What two builds of a script that begin in one session leave behind, the first with one worker
and the second with several. -/
structure Match (setup : Setup R σ) (lines : List (ScriptLine R)) (s t t' : Session R σ) :
    Prop where
  /-- The files of all assets are the same. -/
  files : ∀ key content,
    t'.shelf.disk.get? (Path.place (setup.store.pathFor key)) = some (.file content) ↔
      t.shelf.disk.get? (Path.place (setup.store.pathFor key)) = some (.file content)
  /-- The calls to generators for the absent assets, each by its first mention, are different. -/
  once : ((setup.absent s (mentions lines)).map Request.call).Nodup
  /-- A single worker makes these calls in the order of the script. -/
  alone : t.generations = s.generations ++ (setup.absent s (mentions lines)).map Request.call
  /-- Several workers make the same calls in some order. -/
  together : ∃ calls, calls.Perm ((setup.absent s (mentions lines)).map Request.call) ∧
    t'.generations = s.generations ++ calls
  generated : t'.shelf.stats.generated = t.shelf.stats.generated
  /-- With several workers each asset that is generated is found once more. -/
  hits : t'.shelf.stats.hits + s.shelf.stats.generated
    = t.shelf.stats.hits + t.shelf.stats.generated

/-- A build with one worker and one with several agree. -/
structure Agree (setup : Setup R σ) (answers : Answers R) (lines : List (ScriptLine R))
    (s : Session R σ)
    (one several : EStateM.Result (Failure R) (Session R σ) (Timeline R × Report)) : Prop where
  succeeds : (∃ result t, one = .ok result t) ↔ ∃ result t, several = .ok result t
  same : ∀ result t result' t', one = .ok result t → several = .ok result' t' →
    result' = result ∧ Match setup lines s t t'
  fails : ∀ failure t, one = .error failure t → failure.isGenerationFailed = true →
    ¬ answers.ProbeFails failure → ∃ t', several = .error failure t'

theorem agree_of_ok {result : Timeline R × Report} (h : Match setup lines s t t') :
    Agree setup answers lines s (.ok result t) (.ok result t') where
  succeeds := ⟨fun _ => ⟨result, t', rfl⟩, fun _ => ⟨result, t, rfl⟩⟩
  same := by
    intro _ _ _ _ hone hseveral
    cases hone
    cases hseveral
    exact ⟨rfl, h⟩
  fails := by
    intro failure t h
    cases h

theorem agree_of_error {failure failure' : Failure R}
    (h : failure.isGenerationFailed = true → ¬ answers.ProbeFails failure → failure' = failure) :
    Agree setup answers lines s (.error failure t) (.error failure' t') where
  succeeds := by simp
  same := by
    intro _ _ _ _ hone
    cases hone
  fails := by
    intro _ _ hone hgeneration hprobe
    cases hone
    rw [h hgeneration hprobe]
    exact ⟨t', rfl⟩

/-- Nothing has been made at the beginning. -/
theorem accounted_begin (setup : Setup R σ) (answers : Answers R) (s : Session R σ)
    (all : List (Request R)) : Accounted setup answers s all all [] s where
  split := rfl
  made := by
    intro r hr
    cases hr
  generations := (List.append_nil _).symm
  generated := rfl
  total := rfl

/-- At the end a session has made all that was absent. -/
theorem Accounted.past_eq {all past : List (Request R)}
    (h : Accounted setup answers s all [] past t) : setup.absent s all = past := by
  rw [h.split]
  exact List.append_nil past

/-- If all requests have succeeded, everything is kept behind the workers. -/
theorem Prefetched.isSome_kept (h : Prefetched setup answers keys start taken s u)
    (hall : ∀ r ∈ setup.absent s (mentions lines), ∃ content, answers.made r = .ok content)
    (htaken : taken.Perm (setup.absent s (mentions lines))) {r : Request R}
    (hr : r ∈ requests lines) (hkey : r.key ∈ keys) : (setup.kept u r.key).isSome = true := by
  by_cases hmem : r.key ∈ taken.map (·.key)
  · obtain ⟨x, hx, heq⟩ := List.mem_map.mp hmem
    obtain ⟨content, hmade⟩ := hall x (htaken.mem_iff.mp hx)
    rw [← heq, h.kept x hx, hmade]
    rfl
  · rw [h.others r.key hkey hmem]
    cases hk : setup.kept s r.key with
    | some content => rfl
    | none =>
        have habsent : r ∈ setup.absent s (mentions lines) :=
          mem_missing_iff.mpr ⟨mem_requests_iff.mp hr, by rw [hk]; rfl⟩
        exact absurd (List.mem_map_of_mem (htaken.mem_iff.mpr habsent)) hmem

/-- If all requests have succeeded, a session behind the workers is a twin of itself. -/
theorem Prefetched.twins_self
    (h : Prefetched setup answers ((requests lines).map (·.key)) start taken s u)
    (hall : ∀ r ∈ setup.absent s (mentions lines), ∃ content, answers.made r = .ok content)
    (htaken : taken.Perm (setup.absent s (mentions lines))) :
    Twins setup answers ((requests lines).map (·.key)) start (mentions lines) u u where
  first := h.quiet
  second := h.quiet
  kept := by
    intro key hkey
    obtain ⟨r, hr, rfl⟩ := List.mem_map.mp hkey
    obtain ⟨content, hk⟩ := Option.isSome_iff_exists.mp (h.isSome_kept hall htaken hr hkey)
    rw [hk]
    rfl

/-- What is absent is requested in the order of the script. -/
theorem pairwise_absent (setup : Setup R σ) (s : Session R σ)
    (hlines : lines.Pairwise fun line later => line.line < later.line) :
    (setup.absent s (mentions lines)).Pairwise fun r later => r.line < later.line :=
  (pairwise_requests hlines).sublist List.filter_sublist

/-- Where everything is kept, nothing is absent. -/
theorem absent_eq_nil (h : ∀ r ∈ requests lines, (setup.kept u r.key).isSome = true) :
    setup.absent u (mentions lines) = [] := by
  refine List.filter_eq_nil_iff.mpr fun r hr => ?_
  have hsome := h r hr
  simp [hsome]

/-- Two sessions that have run a whole script side by side have the same files of assets. -/
theorem Twins.files (h : Twins setup answers keys start [] t t')
    (hu : setup.Undisturbed answers keys start) (key : AssetKey) (content : ByteArray) :
    t'.shelf.disk.get? (Path.place (setup.store.pathFor key)) = some (.file content) ↔
      t.shelf.disk.get? (Path.place (setup.store.pathFor key)) = some (.file content) := by
  by_cases hplace : ∃ k ∈ keys, Path.place (setup.store.pathFor key)
      = Path.place (setup.store.pathFor k)
  · obtain ⟨k, hk, heq⟩ := hplace
    have hfile : ∀ {v : Session R σ}, Quiet setup keys start v →
        (v.shelf.disk.get? (Path.place (setup.store.pathFor k)) = some (.file content) ↔
          setup.kept v k = some content) := by
      intro v hv
      have hfinds := hv.reached.finds hu.extension (fun other hother => hu.apart other hother k hk)
        (hu.finds k hk)
      constructor
      · intro hg
        exact Store.kept_eq_some_iff.mpr (Disk.read_eq_ok_iff.mp (hfinds content hg))
      · intro hkept
        exact (Store.kept_eq_some_iff.mp hkept).2.1
    have hsame : setup.kept t' k = setup.kept t k := by
      rw [h.kept k hk]
      exact Option.or_none
    rw [heq, hfile h.first, hfile h.second, hsame]
  · have hne : ∀ k ∈ keys, Path.place (setup.store.pathFor key)
        ≠ Path.place (setup.store.pathFor k) := fun k hk heq => hplace ⟨k, hk, heq⟩
    rw [h.second.reached.get?_eq_file_iff hu.extension hne,
      h.first.reached.get?_eq_file_iff hu.extension hne]

/-- The ends of two runs, the second of which began behind the workers, match. -/
theorem match_of_inStep (hu : setup.Undisturbed answers keys start)
    (hkeys : ∀ r ∈ requests lines, r.key ∈ keys)
    (hpre : Prefetched setup answers keys start taken s u)
    (htaken : taken.Perm (setup.absent s (mentions lines)))
    (hall : ∀ r ∈ setup.absent s (mentions lines), ∃ content, answers.made r = .ok content)
    (h : InStep setup answers keys start s (mentions lines) [] t t')
    (h' : InStep setup answers keys start u (mentions lines) [] t' t') :
    Match setup lines s t t' := by
  obtain ⟨htwins, past, hpast⟩ := h
  obtain ⟨-, past', hpast'⟩ := h'
  have hmade := hpast.past_eq
  have hnone : past' = [] := by
    rw [← hpast'.past_eq]
    exact absent_eq_nil fun r hr => hpre.isSome_kept hall htaken hr (hkeys r hr)
  subst hmade hnone
  have hahead := hpre.generated fun r hr => hall r (htaken.mem_iff.mp hr)
  have hgenerated := hpast.generated
  have hgenerated' := hpast'.generated
  rw [hahead, htaken.length_eq, List.length_nil, Nat.add_zero, ← hgenerated] at hgenerated'
  refine ⟨htwins.files hu, ?_, hpast.generations, ?_, hgenerated', ?_⟩
  · have hnodup : ((setup.absent s (mentions lines)).map (·.key)).Nodup :=
      (nodup_firstRequests [] (mentions lines)).sublist (List.filter_sublist.map _)
    rw [List.Nodup, List.pairwise_map] at hnodup ⊢
    exact hnodup.imp fun hne heq => hne (Request.key_of_call heq)
  · refine ⟨taken.map Request.call, htaken.map _, ?_⟩
    rw [hpast'.generations, hpre.generations, List.map_nil, List.append_nil]
  · have htotal := hpast.total
    have htotal' := hpast'.total
    have hhits := hpre.hits
    have hlength := htaken.length_eq
    simp only [Stats.total] at htotal htotal'
    omega

/-- Builds whose counts do not match do not agree. -/
theorem Agree.hits_eq {one several : Work R σ (Timeline R × Report)} {stats stats' : Stats}
    (h : Agree setup answers lines s (one s) (several s)) (hone : one.counts? s = some stats)
    (hseveral : several.counts? s = some stats') :
    stats'.hits + s.shelf.stats.generated = stats.hits + stats.generated := by
  obtain ⟨result, t, hok, rfl⟩ := Work.counts?_eq_some_iff.mp hone
  obtain ⟨result', t', hok', rfl⟩ := Work.counts?_eq_some_iff.mp hseveral
  exact (h.same result t result' t' hok hok').2.hits

section Both

variable [Scalar R]

/-- If all requests succeed, then behind the workers a build goes on as it would have without them,
and has nothing left to make. -/
theorem agree_of_made (hu : setup.Undisturbed answers ((requests lines).map (·.key)) start)
    (hs : Quiet setup ((requests lines).map (·.key)) start s)
    (hpre : Prefetched setup answers ((requests lines).map (·.key)) start taken s u)
    (htaken : taken.Perm (setup.absent s (mentions lines)))
    (hall : ∀ r ∈ setup.absent s (mentions lines), ∃ content, answers.made r = .ok content) :
    Agree setup answers lines s (conclude setup lines s) (conclude setup lines u) := by
  have hkeys := key_mem_of_mentions lines
  have hrun := run_alike hu hkeys ⟨hpre.twins hs (fun key hkey => List.mem_map.mp hkey) htaken, [],
    accounted_begin setup answers s (mentions lines)⟩
  have hself := run_alike hu hkeys
    ⟨hpre.twins_self hall htaken, [], accounted_begin setup answers u (mentions lines)⟩
  unfold conclude
  generalize hend : run setup lines s = ends at hrun
  generalize hend' : run setup lines u = ends' at hrun hself
  cases hrun with
  | error =>
      rw [Work.bind_apply_of_error hend, Work.bind_apply_of_error hend']
      exact agree_of_error fun _ _ => rfl
  | @ok p t t' h =>
      rw [Work.bind_apply_of_ok hend, Work.bind_apply_of_ok hend']
      cases hself with
      | ok h' =>
          cases finish p with
          | error failure => exact agree_of_error fun _ _ => rfl
          | ok result =>
              exact agree_of_ok (match_of_inStep hu (fun r hr => List.mem_map_of_mem hr) hpre
                htaken hall h h')

/-- If a request fails, then a single worker does not come past it. -/
theorem agree_of_firstFails
    (hu : setup.Undisturbed answers ((requests lines).map (·.key)) start)
    (hs : Quiet setup ((requests lines).map (·.key)) start s)
    (hpre : Prefetched setup answers ((requests lines).map (·.key)) start taken s u)
    (htaken : taken.Perm (setup.absent s (mentions lines)))
    (hlines : lines.Pairwise fun line later => line.line < later.line) {failure : Failure R}
    (hfails : answers.FirstFails (setup.absent s (mentions lines)) failure) :
    Agree setup answers lines s (conclude setup lines s) (.error failure u) := by
  have hrun := run_alike hu (key_mem_of_mentions lines) ⟨hpre.twins hs
    (fun key hkey => List.mem_map.mp hkey) htaken, [],
    accounted_begin setup answers s (mentions lines)⟩
  have horder := pairwise_absent setup s hlines
  unfold conclude
  generalize hend : run setup lines s = ends at hrun
  generalize run setup lines u = ends' at hrun
  cases hrun with
  | @error cause t t' hblames =>
      rw [Work.bind_apply_of_error hend]
      refine agree_of_error fun hgeneration hprobe => ?_
      have hcause := (hblames hgeneration).resolve_left hprobe
      exact Option.some.inj ((firstFailure_of_firstFails hu.answers horder hfails).symm.trans
        (firstFailure_of_firstFails hu.answers horder hcause))
  | ok h =>
      -- A run that has come to its end has made everything, also what fails.
      obtain ⟨-, past, hpast⟩ := h
      obtain ⟨before, r, later, hsplit, -, hr⟩ := hfails
      have hmem : r ∈ past := by
        rw [← hpast.past_eq, hsplit]
        simp
      obtain ⟨content, hmade⟩ := hpast.made r hmem
      rw [hr] at hmade
      cases hmade

end Both

end Build

/-- **Generating ahead is only an optimisation.** With collaborators that answer alike and an
undisturbed store, a build with several workers, in whatever order they work, agrees with a build
that has one. -/
theorem build_agree [Scalar R] (setup : Setup R σ) (answers : Answers R)
    (lines : List (ScriptLine R)) (s : Session R σ) (hworkers : 1 < setup.workers)
    (hlines : lines.Pairwise fun line later => line.line < later.line)
    (hquiet : s.surroundings.cancelled = false)
    (hu : setup.Undisturbed answers ((requests lines).map (·.key)) s.shelf) :
    Build.Agree setup answers lines s (build { setup with workers := 1 } lines s)
      (build setup lines s) := by
  cases hstructure : checkStructure lines with
  | error failure =>
      rw [build_of_refused hstructure, build_of_refused hstructure]
      exact Build.agree_of_error fun _ _ => rfl
  | ok _ =>
      have hs : Build.Quiet setup ((requests lines).map (·.key)) s.shelf s := ⟨hquiet, .start⟩
      obtain ⟨u, taken, htaken, hpre, hprefetch⟩ :=
        Build.prefetch_eq hu hs fun r hr => List.mem_map_of_mem hr
      have hone : build { setup with workers := 1 } lines s = Build.conclude setup lines s :=
        build_of_one_worker hstructure (Nat.lt_irrefl 1)
      rw [hone, build_of_many_workers hstructure hworkers]
      rcases Build.made_or_firstFails answers (setup.absent s (mentions lines)) with
        hall | ⟨failure, hfails⟩
      · have hnone : Build.firstFailure ((setup.absent s (mentions lines)).map
            (Build.noted setup answers)) = none := Build.foldl_better_of_made hall none
        rw [hnone] at hprefetch
        rw [Work.bind_apply_of_ok hprefetch]
        exact Build.agree_of_made hu hs hpre htaken hall
      · rw [Build.firstFailure_of_firstFails hu.answers (Build.pairwise_absent setup s hlines)
          hfails] at hprefetch
        rw [Work.bind_apply_of_error hprefetch]
        exact Build.agree_of_firstFails hu hs hpre htaken hlines hfails

/-- Two workers that are given everything. -/
def twoWorkers : Setup Float Unit := { steadySetup with workers := 2 }

/-- A shelf on which the greeting is kept. -/
def greetingShelf : Shelf where
  disk := ((({} : Disk).put ⟨.above 0, ["cache"]⟩ .folder).put
    ⟨.above 0, ["cache", "voice"]⟩ .folder).put
    ⟨.above 0, ["cache", "voice", greeting.fileName "opus"]⟩ (.file ⟨#[1]⟩)

/-- The greeting is kept and the rain is not: two workers generate the rain ahead. -/
theorem build_agree_rain :
    ∃ result t t',
      build steadySetup rainScript ⟨greetingShelf, ⟨false, [], ()⟩⟩ = .ok result t ∧
      build twoWorkers rainScript ⟨greetingShelf, ⟨false, [], ()⟩⟩ = .ok result t' ∧
      Build.Match twoWorkers rainScript ⟨greetingShelf, ⟨false, [], ()⟩⟩ t t' ∧
      t.shelf.stats = ⟨1, 1⟩ := by
  have hkeys : (requests rainScript).map (·.key) = [⟨.sound, "rain"⟩, greeting] := by decide
  have hapart : Digest.leading "rain" ≠ Digest.leading "Hello" := by decide +kernel
  have hu : twoWorkers.Undisturbed (constantAnswers (.ok ⟨#[1]⟩) (.ok ⟨#[1]⟩) (.ok 2))
      ((requests rainScript).map (·.key)) greetingShelf := by
    rw [hkeys]
    refine ⟨answersBy_constant _ ?_ ?_, by decide, ?_, ?_, by decide +kernel⟩
    · intro failure h
      cases h
    · intro failure h
      cases h
    · intro key hkey other hother heq
      rcases List.mem_pair.mp hkey with rfl | rfl <;> rcases List.mem_pair.mp hother with rfl | rfl
      · rfl
      · exact absurd heq hapart
      · exact absurd heq.symm hapart
      · rfl
    · intro key hkey
      rcases List.mem_pair.mp hkey with rfl | rfl
      · intro content hg
        have hnone : greetingShelf.disk.get?
            (Path.place (twoWorkers.store.pathFor ⟨.sound, "rain"⟩)) = none := by decide +kernel
        rw [hnone] at hg
        cases hg
      · exact Store.finds_of_isFile (by decide +kernel)
  have hagree := build_agree twoWorkers _ rainScript ⟨greetingShelf, ⟨false, [], ()⟩⟩ (by decide)
    (by decide) rfl hu
  have hcounts : (build steadySetup rainScript).counts? ⟨greetingShelf, ⟨false, [], ()⟩⟩
      = some ⟨1, 1⟩ := by decide +kernel
  obtain ⟨result, t, hone, hstats⟩ := Work.counts?_eq_some_iff.mp hcounts
  obtain ⟨result', t', hseveral⟩ := hagree.succeeds.mp ⟨result, t, hone⟩
  obtain ⟨rfl, hmatch⟩ := hagree.same result t result' t' hone hseveral
  exact ⟨result', t, t', hone, hseveral, hmatch, hstats⟩

/-- A probe that fails as a generator would, next to a generator that is busy. -/
def oddCollaborators : Collaborators Float Unit :=
  constantCollaborators (.ok ⟨#[1]⟩) (.error (.other "busy" []))
    (.error (.generationFailed 1 "voice:Hello" (.other "odd" [])))

/-- What they answer. -/
def oddAnswers : Answers Float :=
  constantAnswers (.ok ⟨#[1]⟩) (.error (.other "busy" []))
    (.error (.generationFailed 1 "voice:Hello" (.other "odd" [])))

/-- Somebody says hello and goodbye. -/
def farewellScript : List (ScriptLine Float) := [⟨1, .voice 0 "Hello"⟩, ⟨2, .voice 0 "Bye"⟩]

/-- Somebody says hello before it booms. -/
def boomScript : List (ScriptLine Float) := [⟨1, .voice 0 "Hello"⟩, ⟨2, .sound 0 1 "boom"⟩]

/-- The conditions are needed. A file that is hidden below a root, and a file that two assets have
in common, are found once too often with several workers, though no file operation fails. A probe
that fails as a generator would stops a single worker before the generator that stops two. -/
theorem not_agree_hidden_shared_or_measured :
    (∀ answers, ¬ Build.Agree { twoWorkers with store := hidingStore } answers
      [⟨1, .voice 0 "Hello"⟩] ⟨hiddenShelf, ⟨false, [], ()⟩⟩
      (build { steadySetup with store := hidingStore } [⟨1, .voice 0 "Hello"⟩]
        ⟨hiddenShelf, ⟨false, [], ()⟩⟩)
      (build { twoWorkers with store := hidingStore } [⟨1, .voice 0 "Hello"⟩]
        ⟨hiddenShelf, ⟨false, [], ()⟩⟩)) ∧
    greeting.Apart farewell ∧
    (∀ answers, ¬ Build.Agree { twoWorkers with store := sharingStore } answers farewellScript
      ⟨sharedShelf, ⟨false, [], ()⟩⟩
      (build { steadySetup with store := sharingStore } farewellScript
        ⟨sharedShelf, ⟨false, [], ()⟩⟩)
      (build { twoWorkers with store := sharingStore } farewellScript
        ⟨sharedShelf, ⟨false, [], ()⟩⟩)) ∧
    oddCollaborators.AnswersBy oddAnswers ∧
    ∃ failure t failure' t',
      build { steadySetup with collaborators := oddCollaborators } boomScript
          ⟨{}, ⟨false, [], ()⟩⟩ = .error failure t ∧
        failure.isGenerationFailed = true ∧
        build { twoWorkers with collaborators := oddCollaborators } boomScript
          ⟨{}, ⟨false, [], ()⟩⟩ = .error failure' t' ∧ failure' ≠ failure := by
  have hhidden : (build { steadySetup with store := hidingStore } [⟨1, .voice 0 "Hello"⟩]).counts?
        ⟨hiddenShelf, ⟨false, [], ()⟩⟩ = some ⟨1, 0⟩ ∧
      (build { twoWorkers with store := hidingStore } [⟨1, .voice 0 "Hello"⟩]).counts?
        ⟨hiddenShelf, ⟨false, [], ()⟩⟩ = some ⟨2, 0⟩ := by decide +kernel
  have hshared : (build { steadySetup with store := sharingStore } farewellScript).counts?
        ⟨sharedShelf, ⟨false, [], ()⟩⟩ = some ⟨1, 1⟩ ∧
      (build { twoWorkers with store := sharingStore } farewellScript).counts?
        ⟨sharedShelf, ⟨false, [], ()⟩⟩ = some ⟨3, 1⟩ := by decide +kernel
  have hone : ((build { steadySetup with collaborators := oddCollaborators } boomScript).failure?
      ⟨{}, ⟨false, [], ()⟩⟩).map (fun f => (f.isGenerationFailed, f.line?))
        = some (true, some 1) := by decide +kernel
  have htwo : ((build { twoWorkers with collaborators := oddCollaborators } boomScript).failure?
      ⟨{}, ⟨false, [], ()⟩⟩).map Failure.line? = some (some 2) := by decide +kernel
  refine ⟨?_, ?_, ?_, ?_, ?_⟩
  · intro answers h
    exact absurd (h.hits_eq hhidden.1 hhidden.2) (by decide)
  · intro heq
    exact absurd heq (by decide +kernel)
  · intro answers h
    exact absurd (h.hits_eq hshared.1 hshared.2) (by decide)
  · refine answersBy_constant _ ?_ ?_
    · intro failure h
      cases h
    · intro failure h
      cases h
      rfl
  · obtain ⟨failure, hfailure, hends⟩ := Option.map_eq_some_iff.mp hone
    obtain ⟨failure', hfailure', hline'⟩ := Option.map_eq_some_iff.mp htwo
    obtain ⟨hgeneration, hline⟩ := Prod.mk.inj hends
    obtain ⟨t, ht⟩ := Work.failure?_eq_some_iff.mp hfailure
    obtain ⟨t', ht'⟩ := Work.failure?_eq_some_iff.mp hfailure'
    refine ⟨failure, t, failure', t', ht, hgeneration, ht', ?_⟩
    rintro rfl
    rw [hline] at hline'
    cases hline'

end Soundstage
