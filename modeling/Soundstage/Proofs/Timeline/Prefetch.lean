import Soundstage.Proofs.Timeline.Lockstep

/-!
# Generating ahead

The workers of a build go through the requests for absent assets in the order of the schedule.
Whatever that order is, they leave the same table behind, `Build.Prefetched`, and their outcomes are
those of the requests in the order of the script, so that the first failure is that of the first
request that fails.
-/

namespace Soundstage

variable {R σ : Type}

/-- The elements at all positions of a list are the list. -/
theorem filterMap_range_getElem? {α : Type} (xs : List α) :
    (List.range xs.length).filterMap (xs[·]?) = xs := by
  induction xs with
  | nil => rfl
  | cons x xs ih =>
      rw [List.length_cons, List.range_succ_eq_map, List.filterMap_cons_some (by rfl),
        List.filterMap_map]
      exact congrArg (x :: ·) ih

namespace Build

variable {setup : Setup R σ} {answers : Answers R} {keys : List AssetKey} {start : Shelf}
  {s t u : Session R σ} {r : Request R} {rs : List (Request R)}

/-- The requests at some positions. -/
def pick (rs : List (Request R)) (order : List Nat) : List (Request R) :=
  order.filterMap (rs[·]?)

/-- What a worker notes for a request. -/
def noted (setup : Setup R σ) (answers : Answers R) (r : Request R) :
    Except (Failure R) String :=
  (answers.made r).map fun _ => setup.store.pathFor r.key

/-- What all workers note for the requests at some positions. -/
def allNoted (setup : Setup R σ) (answers : Answers R) (rs : List (Request R))
    (order : List Nat) : List (Nat × Except (Failure R) String) :=
  order.filterMap fun i => rs[i]?.map fun r => (i, noted setup answers r)

theorem lookup_allNoted {order : List Nat} {i : Nat} (h : i ∈ order) :
    (allNoted setup answers rs order).lookup i = rs[i]?.map (noted setup answers) := by
  induction order with
  | nil => cases h
  | cons first rest ih =>
      unfold allNoted
      by_cases heq : i = first
      · subst heq
        cases hr : rs[i]? with
        | some r =>
            rw [List.filterMap_cons_some (by rw [hr]; rfl)]
            exact List.lookup_cons_self
        | none =>
            rw [List.filterMap_cons_none (by rw [hr]; rfl)]
            by_cases hrest : i ∈ rest
            · exact (ih hrest).trans (by rw [hr])
            · rw [List.lookup_eq_none_iff.mpr]
              · rfl
              · intro pair hpair
                obtain ⟨k, hk, hnoted⟩ := List.mem_filterMap.mp hpair
                obtain ⟨r, -, rfl⟩ := Option.map_eq_some_iff.mp hnoted
                simpa using fun (heq : i = k) => hrest (heq ▸ hk)
      · have hrest := (List.mem_cons.mp h).resolve_left heq
        cases hr : rs[first]? with
        | some r =>
            rw [List.filterMap_cons_some (by rw [hr]; rfl), List.lookup_cons, beq_false_of_ne heq]
            exact ih hrest
        | none =>
            rw [List.filterMap_cons_none (by rw [hr]; rfl)]
            exact ih hrest

/-- In the order of the script the notes are those of the requests, whatever the order was in which
they were taken. -/
theorem filterMap_lookup_allNoted {order : List Nat} (h : order.Perm (List.range rs.length)) :
    (List.range rs.length).filterMap (List.lookup · (allNoted setup answers rs order))
      = rs.map (noted setup answers) := by
  have hlookup : ∀ i ∈ List.range rs.length,
      List.lookup i (allNoted setup answers rs order) = (rs.map (noted setup answers))[i]? := by
    intro i hi
    rw [lookup_allNoted (h.mem_iff.mpr hi), List.getElem?_map]
  rw [List.filterMap_congr hlookup]
  conv_lhs => rw [← List.length_map (noted setup answers)]
  exact filterMap_range_getElem? _

/-- What workers leave behind that have taken up some requests. -/
structure Prefetched (setup : Setup R σ) (answers : Answers R) (keys : List AssetKey)
    (start : Shelf) (rs : List (Request R)) (s t : Session R σ) : Prop where
  quiet : Quiet setup keys start t
  generations : t.generations = s.generations ++ rs.map Request.call
  kept : ∀ r ∈ rs, setup.kept t r.key = (answers.made r).toOption
  others : ∀ key ∈ keys, key ∉ rs.map (·.key) → setup.kept t key = setup.kept s key
  hits : t.shelf.stats.hits = s.shelf.stats.hits
  generated : (∀ r ∈ rs, ∃ content, answers.made r = .ok content) →
    t.shelf.stats.generated = s.shelf.stats.generated + rs.length

theorem Prefetched.refl (hs : Quiet setup keys start s) :
    Prefetched setup answers keys start [] s s where
  quiet := hs
  generations := (List.append_nil _).symm
  kept := by
    intro r hr
    cases hr
  others := fun _ _ _ => rfl
  hits := rfl
  generated := fun _ => rfl

/-- A worker takes up a request for an absent asset. -/
theorem outcome_materialize (hu : setup.Undisturbed answers keys start)
    (hs : Quiet setup keys start s) (hkey : r.key ∈ keys) (hk : setup.kept s r.key = none) :
    ∃ t, Work.outcome (materialize setup r) s = .ok (noted setup answers r) t ∧
      Prefetched setup answers keys start [r] s t := by
  have hsupplies := supplies hu hs hkey
  have hothers : ∀ {t : Session R σ}, Asks setup keys start r s t → ∀ key ∈ keys,
      key ∉ [r].map (·.key) → setup.kept t key = setup.kept s key :=
    fun hasks key hmem hnot => hasks.others key hmem (by simpa using hnot)
  unfold Work.outcome noted
  generalize materialize setup r s = result at hsupplies
  cases hsupplies with
  | kept hk' =>
      rw [hk] at hk'
      cases hk'
  | @made content t _ hmade hasks hkept hstats =>
      refine ⟨t, by rw [hmade]; rfl, hasks.quiet, hasks.generations, ?_, hothers hasks, ?_, ?_⟩
      · intro x hx
        rw [List.mem_singleton.mp hx, hkept, hmade]
        rfl
      · rw [hstats]
        rfl
      · intro _
        rw [hstats]
        rfl
  | @failed failure t _ hmade hasks hkept hstats =>
      refine ⟨t, by rw [hmade]; rfl, hasks.quiet, hasks.generations, ?_, hothers hasks, ?_, ?_⟩
      · intro x hx
        rw [List.mem_singleton.mp hx, hkept, hmade]
        rfl
      · rw [hstats]
      · intro hall
        obtain ⟨content, hcontent⟩ := hall r List.mem_cons_self
        rw [hmade] at hcontent
        cases hcontent

theorem Prefetched.cons (h : Prefetched setup answers keys start [r] s t)
    (h' : Prefetched setup answers keys start rs t u) (hnew : r.key ∉ rs.map (·.key))
    (hkey : r.key ∈ keys) : Prefetched setup answers keys start (r :: rs) s u where
  quiet := h'.quiet
  generations := by
    rw [h'.generations, h.generations, List.append_assoc]
    rfl
  kept := by
    intro x hx
    rcases List.mem_cons.mp hx with rfl | hx
    · rw [h'.others x.key hkey hnew]
      exact h.kept x List.mem_cons_self
    · exact h'.kept x hx
  others := by
    intro key hmem hnot
    rw [List.map_cons, List.mem_cons, not_or] at hnot
    rw [h'.others key hmem hnot.2]
    exact h.others key hmem (by simpa using hnot.1)
  hits := h'.hits.trans h.hits
  generated := by
    intro hall
    have hfirst := h.generated fun x hx => hall x (by simp_all)
    have hrest := h'.generated fun x hx => hall x (List.mem_cons_of_mem _ hx)
    rw [List.length_singleton] at hfirst
    rw [List.length_cons]
    omega

/-- Workers that take up requests for absent assets in some order ask for each of them once. -/
theorem runRequests_eq (hu : setup.Undisturbed answers keys start)
    (hs : Quiet setup keys start s) (order : List Nat)
    (hkeys : ∀ r ∈ pick rs order, r.key ∈ keys)
    (hnodup : ((pick rs order).map (·.key)).Nodup)
    (habsent : ∀ r ∈ pick rs order, setup.kept s r.key = none) :
    ∃ t, runRequests setup rs order s = .ok (allNoted setup answers rs order) t ∧
      Prefetched setup answers keys start (pick rs order) s t := by
  induction order generalizing s with
  | nil => exact ⟨s, rfl, .refl hs⟩
  | cons i rest ih =>
      unfold runRequests
      cases hr : rs[i]? with
      | none =>
          have hpick : pick rs (i :: rest) = pick rs rest :=
            List.filterMap_cons_none hr
          have hnoted : allNoted setup answers rs (i :: rest) = allNoted setup answers rs rest :=
            List.filterMap_cons_none (by rw [hr]; rfl)
          rw [hpick] at hkeys hnodup habsent ⊢
          rw [hnoted]
          exact ih hs hkeys hnodup habsent
      | some r =>
          have hpick : pick rs (i :: rest) = r :: pick rs rest := List.filterMap_cons_some hr
          have hnoted : allNoted setup answers rs (i :: rest)
              = (i, noted setup answers r) :: allNoted setup answers rs rest :=
            List.filterMap_cons_some (by rw [hr]; rfl)
          rw [hpick] at hkeys hnodup habsent ⊢
          rw [hnoted]
          rw [List.map_cons, List.nodup_cons] at hnodup
          have hkey := hkeys r List.mem_cons_self
          obtain ⟨t, hfirst, ht⟩ := outcome_materialize hu hs hkey (habsent r List.mem_cons_self)
          have hstill : ∀ x ∈ pick rs rest, setup.kept t x.key = none := by
            intro x hx
            have hne : x.key ∉ [r].map (·.key) := by
              intro hmem
              have heq : x.key = r.key := by simpa using hmem
              exact hnodup.1 (heq ▸ List.mem_map_of_mem hx)
            rw [ht.others x.key (hkeys x (List.mem_cons_of_mem _ hx)) hne]
            exact habsent x (List.mem_cons_of_mem _ hx)
          obtain ⟨u, hrest, hu'⟩ := ih ht.quiet
            (fun x hx => hkeys x (List.mem_cons_of_mem _ hx)) hnodup.2 hstill
          refine ⟨u, ?_, ht.cons hu' hnodup.1 hkey⟩
          refine (Work.bind_apply_of_ok hfirst).trans ?_
          exact Work.bind_apply_of_ok hrest

theorem pick_perm {order : List Nat} (h : order.Perm (List.range rs.length)) :
    (pick rs order).Perm rs := by
  have hall := h.filterMap (rs[·]?)
  rwa [filterMap_range_getElem?] at hall

/-- What is looked for ahead is what the session does not keep. -/
theorem pending_eq (lines : List (ScriptLine R)) :
    (requests lines).filter (fun r => (setup.store.lookup r.key s.shelf.disk).isNone)
      = setup.absent s (mentions lines) := by
  refine List.filter_congr fun r _ => ?_
  show (setup.store.lookup r.key s.shelf.disk).isNone
    = !(setup.store.kept r.key s.shelf.disk).isSome
  unfold Store.lookup
  rw [Store.isSome_kept]
  cases s.shelf.disk.isFile (setup.store.pathFor r.key) <;> rfl

/-- A failure without a line is given that of the request. -/
theorem line_of_failure {cause : Failure R} (h : cause.line? = none) :
    (r.failure cause).line? = some r.line := by
  unfold Request.failure
  split
  · cases h
  · split
    · unfold Failure.locate
      rw [h]
      rfl
    · rfl

theorem line_of_made (hc : setup.collaborators.AnswersBy answers) {failure : Failure R}
    (h : answers.made r = .error failure) : failure.line? = some r.line := by
  unfold Answers.made at h
  have hoffered : ∀ cause, Store.offered r.key (answers.bytes r) = .error cause →
      cause.line? = none := by
    intro cause hcause
    cases hbytes : answers.bytes r with
    | error failed =>
        rw [hbytes, Store.offered_error] at hcause
        cases hcause
        unfold Answers.bytes at hbytes
        split at hbytes
        · exact hc.speech_line _ _ hbytes
        · exact hc.sound_line _ _ _ hbytes
    | ok content =>
        rw [hbytes] at hcause
        cases hempty : content.isEmpty with
        | true =>
            rw [Store.offered_of_isEmpty hempty] at hcause
            cases hcause
            rfl
        | false =>
            rw [Store.offered_of_not_isEmpty hempty] at hcause
            cases hcause
  cases hcause : Store.offered r.key (answers.bytes r) with
  | ok content =>
      rw [hcause] at h
      cases h
  | error cause =>
      rw [hcause] at h
      cases h
      exact line_of_failure (hoffered cause hcause)

/-- The earlier of a failure and that of an outcome, if it has one. -/
def better {α : Type} (best : Option (Failure R)) (outcome : Except (Failure R) α) :
    Option (Failure R) :=
  match outcome with
  | .ok _ => best
  | .error failure => earlier best failure

theorem firstFailure_eq {α : Type} (outcomes : List (Except (Failure R) α)) :
    firstFailure outcomes = outcomes.foldl better none := rfl

theorem noted_of_made {content : ByteArray} (h : answers.made r = .ok content) :
    noted setup answers r = .ok (setup.store.pathFor r.key) := by
  unfold noted
  rw [h]
  rfl

theorem noted_of_failed {failure : Failure R} (h : answers.made r = .error failure) :
    noted setup answers r = .error failure := by
  unfold noted
  rw [h]
  rfl

theorem foldl_better_of_made (h : ∀ r ∈ rs, ∃ content, answers.made r = .ok content)
    (best : Option (Failure R)) : (rs.map (noted setup answers)).foldl better best = best := by
  induction rs with
  | nil => rfl
  | cons first rest ih =>
      obtain ⟨content, hfirst⟩ := h first List.mem_cons_self
      rw [List.map_cons, List.foldl_cons, noted_of_made hfirst]
      exact ih fun r hr => h r (List.mem_cons_of_mem _ hr)

/-- The failures of later lines do not count. -/
theorem foldl_better_of_later (hc : setup.collaborators.AnswersBy answers) {failure : Failure R}
    {line : Nat} (hline : failure.line? = some line) (h : ∀ r ∈ rs, line < r.line) :
    (rs.map (noted setup answers)).foldl better (some failure) = some failure := by
  induction rs with
  | nil => rfl
  | cons first rest ih =>
      have hrest := ih fun r hr => h r (List.mem_cons_of_mem _ hr)
      rw [List.map_cons, List.foldl_cons]
      cases hfirst : answers.made first with
      | ok content =>
          rw [noted_of_made hfirst]
          exact hrest
      | error other =>
          have hlater : ¬ first.line < line := by
            have hlt := h first List.mem_cons_self
            omega
          have hbest : better (some failure) (noted setup answers first) = some failure := by
            rw [noted_of_failed hfirst]
            simp only [better, earlier, hline, line_of_made hc hfirst, if_neg hlater]
          rw [hbest]
          exact hrest

/-- Of requests in the order of their lines, the first one that fails is the one to be reported. -/
theorem firstFailure_of_firstFails (hc : setup.collaborators.AnswersBy answers)
    (hlines : rs.Pairwise fun r later => r.line < later.line) {failure : Failure R}
    (h : answers.FirstFails rs failure) :
    firstFailure (rs.map (noted setup answers)) = some failure := by
  obtain ⟨past, r, later, rfl, hpast, hr⟩ := h
  rw [List.pairwise_append] at hlines
  rw [firstFailure_eq, List.map_append, List.map_cons, List.foldl_append, List.foldl_cons,
    foldl_better_of_made hpast, noted_of_failed hr]
  exact foldl_better_of_later hc (line_of_made hc hr) (List.pairwise_cons.mp hlines.2.1).1

/-- Either all requests succeed, or there is a first one that fails. -/
theorem made_or_firstFails (answers : Answers R) (rs : List (Request R)) :
    (∀ r ∈ rs, ∃ content, answers.made r = .ok content) ∨
      ∃ failure, answers.FirstFails rs failure := by
  induction rs with
  | nil => exact .inl fun r hr => by cases hr
  | cons first rest ih =>
      cases hfirst : answers.made first with
      | error failure => exact .inr ⟨failure, [], first, rest, rfl, by simp, hfirst⟩
      | ok content =>
          have hcons : ∀ past : List (Request R),
              (∀ r ∈ past, ∃ content, answers.made r = .ok content) →
              ∀ r ∈ first :: past, ∃ content, answers.made r = .ok content := by
            intro past hpast r hr
            rcases List.mem_cons.mp hr with rfl | hr
            · exact ⟨content, hfirst⟩
            · exact hpast r hr
          rcases ih with hall | ⟨failure, past, r, later, rfl, hpast, hr⟩
          · exact .inl (hcons rest hall)
          · exact .inr ⟨failure, first :: past, r, later, rfl, hcons past hpast, hr⟩

/-- **Generating ahead.** In whatever order the workers take up the requests for absent assets, they
ask for each of them once, and fail if the first request that fails does. -/
theorem prefetch_eq {lines : List (ScriptLine R)} (hu : setup.Undisturbed answers keys start)
    (hs : Quiet setup keys start s) (hkeys : ∀ r ∈ requests lines, r.key ∈ keys) :
    ∃ t taken, taken.Perm (setup.absent s (mentions lines)) ∧
      Prefetched setup answers keys start taken s t ∧
      prefetch setup lines s
        = match firstFailure ((setup.absent s (mentions lines)).map (noted setup answers)) with
          | some failure => .error failure t
          | none => .ok () t := by
  have hperm := setup.schedule.perm (setup.absent s (mentions lines)).length
  have htaken := pick_perm hperm
  have hmem : ∀ r ∈ pick (setup.absent s (mentions lines))
      (setup.schedule.order (setup.absent s (mentions lines)).length),
      r ∈ requests lines ∧ setup.kept s r.key = none := by
    intro r hr
    obtain ⟨hfind, habsent⟩ := mem_missing_iff.mp (htaken.mem_iff.mp hr)
    exact ⟨mem_requests_iff.mpr hfind, by simpa using habsent⟩
  have hnodup : ((setup.absent s (mentions lines)).map (·.key)).Nodup :=
    (nodup_firstRequests [] (mentions lines)).sublist (List.filter_sublist.map _)
  obtain ⟨t, hrun, ht⟩ := runRequests_eq hu hs _ (fun r hr => hkeys r (hmem r hr).1)
    ((htaken.map _).nodup_iff.mpr hnodup) fun r hr => (hmem r hr).2
  refine ⟨t, _, htaken, ht, ?_⟩
  unfold prefetch
  rw [Work.bind_apply_of_ok (Work.get_apply s), pending_eq]
  refine (Work.bind_apply_of_ok hrun).trans ?_
  rw [filterMap_lookup_allNoted hperm]
  cases firstFailure ((setup.absent s (mentions lines)).map (noted setup answers)) <;> rfl

/-- Behind the workers a session stands beside the one they began in. -/
theorem Prefetched.twins {lines : List (ScriptLine R)} {taken : List (Request R)}
    (h : Prefetched setup answers keys start taken s t) (hs : Quiet setup keys start s)
    (hkeys : ∀ key ∈ keys, ∃ r ∈ requests lines, r.key = key)
    (htaken : taken.Perm (setup.absent s (mentions lines))) :
    Twins setup answers keys start (mentions lines) s t where
  first := hs
  second := h.quiet
  kept := by
    intro key hkey
    obtain ⟨r, hr, rfl⟩ := hkeys key hkey
    have hfind := mem_requests_iff.mp hr
    cases hk : setup.kept s r.key with
    | some content =>
        have hnot : r.key ∉ taken.map (·.key) := by
          intro hmem
          obtain ⟨x, hx, heq⟩ := List.mem_map.mp hmem
          have habsent := (mem_missing_iff.mp (htaken.mem_iff.mp hx)).2
          rw [heq, hk] at habsent
          cases habsent
        rw [h.others r.key hkey hnot, hk]
        rfl
    | none =>
        have hmem : r ∈ taken := by
          refine htaken.mem_iff.mpr (mem_missing_iff.mpr ⟨hfind, ?_⟩)
          rw [hk]
          rfl
        rw [h.kept r hmem, Answers.upcoming, hfind]
        rfl

end Build

end Soundstage
