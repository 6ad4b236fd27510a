import Soundstage.Proofs.Timeline.Blame

/-!
# The failure that workers report

Workers go on behind failures, so that several requests may have failed when all of them are done.
`Build.IsEarliest` says which failure stands for the others, and `firstFailure_eq_some_iff` that the
running comparison of `Build.firstFailure` finds it: failures without a line neither win over those
with one nor keep them back. Where every failure has the line of its request, the failure found is
that of the first request that has failed, whichever worker came first.
-/

namespace Soundstage

variable {R σ : Type}

/-- What generators report does not name lines of the script, which they do not know. -/
def Collaborators.GeneratesUnlocated (c : Collaborators R σ) : Prop :=
  ∀ key hint surroundings failure,
    (c.generate key hint surroundings).1 = .error failure → failure.line? = none

theorem Collaborators.Unlocated.generates {c : Collaborators R σ} (h : c.Unlocated) :
    c.GeneratesUnlocated := by
  intro key hint surroundings failure hfailure
  obtain ⟨role, text⟩ := key
  cases role with
  | voice => exact h.speech _ _ _ _ hfailure
  | sound => exact h.sound _ _ _ _ _ hfailure

theorem Work.eq_error_of_outcome {α : Type} {work : Work R σ α} {s t : Session R σ}
    {failure : Failure R} (h : work.outcome s = .ok (.error failure) t) :
    work s = .error failure t := by
  unfold outcome at h
  split at h
  · cases h
  · next hwork =>
      cases h
      exact hwork

namespace Build

/-! ## The running comparison -/

/-- The failures among some outcomes, in their order. -/
def failures {α : Type} (outcomes : List (Except (Failure R) α)) : List (Failure R) :=
  outcomes.filterMap fun
    | .ok _ => none
    | .error failure => some failure

/-- The failure that stands for several: the first one of those with the least line, or the first
one of all if none has a line. -/
inductive IsEarliest (failures : List (Failure R)) (failure : Failure R) : Prop
  | located {before after : List (Failure R)} {line : Nat}
      (hsplit : failures = before ++ failure :: after) (hline : failure.line? = some line)
      (hbefore : ∀ other ∈ before, ∀ number, other.line? = some number → line < number)
      (hafter : ∀ other ∈ after, ∀ number, other.line? = some number → line ≤ number)
  | unlocated {after : List (Failure R)} (hsplit : failures = failure :: after)
      (hnone : ∀ other ∈ failures, other.line? = none)

section Comparison

variable {α : Type} {outcomes : List (Except (Failure R) α)} {fs rest : List (Failure R)}
  {best failure other : Failure R} {line : Nat}

theorem IsEarliest.mem (h : IsEarliest fs failure) : failure ∈ fs := by
  cases h with
  | located hsplit => exact hsplit ▸ List.mem_append_right _ List.mem_cons_self
  | unlocated hsplit => exact hsplit ▸ List.mem_cons_self

theorem IsEarliest.cons (hline : failure.line? = some line)
    (h : ∀ other ∈ rest, ∀ number, other.line? = some number → line ≤ number) :
    IsEarliest (failure :: rest) failure :=
  .located (List.nil_append _).symm hline nofun h

/-- A failure with a line takes the place of one that has none or a later one. -/
theorem earlier_of_lt (hline : failure.line? = some line)
    (h : ∀ number, best.line? = some number → line < number) :
    earlier (some best) failure = some failure := by
  unfold earlier
  cases hbest : best.line? with
  | none => simp [hbest, hline]
  | some number => simp [hbest, hline, h number hbest]

/-- A failure keeps its place before one that has no line or a line that is not earlier. -/
theorem earlier_of_le (hline : best.line? = some line)
    (h : ∀ number, failure.line? = some number → line ≤ number) :
    earlier (some best) failure = some best := by
  unfold earlier
  cases hfailure : failure.line? with
  | none => simp [hline, hfailure]
  | some number =>
      have hle := h number hfailure
      simp [hline, hfailure, Nat.not_lt.mpr hle]

theorem earlier_of_none (h : failure.line? = none) :
    earlier (some best) failure = some best := by
  unfold earlier
  cases best.line? <;> simp [h]

/-- No failure has an earlier line than the earliest one. -/
theorem IsEarliest.line_le (h : IsEarliest fs best) (hbest : best.line? = some line) :
    ∀ f ∈ fs, ∀ number, f.line? = some number → line ≤ number := by
  intro f hf number hnumber
  cases h with
  | located hsplit hline hbefore hafter =>
      rw [hbest] at hline
      obtain rfl := Option.some.inj hline
      rw [hsplit] at hf
      obtain hf | hf := List.mem_append.mp hf
      · exact (hbefore f hf number hnumber).le
      · obtain rfl | hf := List.mem_cons.mp hf
        · rw [hbest] at hnumber
          exact (Option.some.inj hnumber).le
        · exact hafter f hf number hnumber
  | unlocated _ hnone =>
      rw [hnone f hf] at hnumber
      cases hnumber

/-- A failure with an earlier line than all others takes their place. -/
theorem concat_of_lt (hbest : best ∈ fs) (hother : other.line? = some line)
    (h : ∀ f ∈ fs, ∀ number, f.line? = some number → line < number) :
    ∃ next, earlier (some best) other = some next ∧ IsEarliest (fs ++ [other]) next :=
  ⟨other, earlier_of_lt hother (h best hbest), .located rfl hother h nofun⟩

/-- One comparison: the earliest failure is compared with one more. -/
theorem IsEarliest.concat (h : IsEarliest fs best) (other : Failure R) :
    ∃ next, earlier (some best) other = some next ∧ IsEarliest (fs ++ [other]) next := by
  have hmem := h.mem
  cases h with
  | @located before after line hsplit hline hbefore hafter =>
      by_cases hlater : ∀ number, other.line? = some number → line ≤ number
      · have hlonger : fs ++ [other] = before ++ best :: (after ++ [other]) := by
          rw [hsplit, List.append_assoc, List.cons_append]
        refine ⟨best, earlier_of_le hline hlater, .located hlonger hline hbefore ?_⟩
        intro f hf
        obtain hf | hf := List.mem_append.mp hf
        · exact hafter f hf
        · rw [List.mem_singleton.mp hf]
          exact hlater
      · simp only [not_forall, Nat.not_le] at hlater
        obtain ⟨number, hother, hlt⟩ := hlater
        have hearliest : IsEarliest fs best := .located hsplit hline hbefore hafter
        exact concat_of_lt hmem hother fun f hf number' hf' =>
          hlt.trans_le (hearliest.line_le hline f hf number' hf')
  | @unlocated after hsplit hnone =>
      cases hother : other.line? with
      | none =>
          have hlonger : fs ++ [other] = best :: (after ++ [other]) := by
            rw [hsplit, List.cons_append]
          refine ⟨best, earlier_of_none hother, .unlocated hlonger ?_⟩
          intro f hf
          obtain hf | hf := List.mem_append.mp hf
          · exact hnone f hf
          · rw [List.mem_singleton.mp hf]
            exact hother
      | some number =>
          refine concat_of_lt hmem hother fun f hf number' hf' => ?_
          rw [hnone f hf] at hf'
          cases hf'

/-- The comparison of all failures finds the earliest one, by induction from the last failure. -/
theorem isEarliest_foldl (fs : List (Failure R)) :
    (fs = [] ∧ fs.foldl earlier none = none) ∨
      ∃ best, fs.foldl earlier none = some best ∧ IsEarliest fs best := by
  induction fs using List.reverseRecOn with
  | nil => exact .inl ⟨rfl, rfl⟩
  | append_singleton fs other ih =>
      refine .inr ?_
      rw [List.foldl_append]
      obtain ⟨rfl, hnone⟩ | ⟨best, hbest, hearliest⟩ := ih
      · rw [hnone]
        cases hother : other.line? with
        | none => exact ⟨other, rfl, .unlocated rfl (by simpa using hother)⟩
        | some line => exact ⟨other, rfl, .cons hother nofun⟩
      · rw [hbest]
        exact hearliest.concat other

theorem foldl_earlier_of_le (hline : best.line? = some line)
    (h : ∀ f ∈ rest, ∀ number, f.line? = some number → line ≤ number) :
    rest.foldl earlier (some best) = some best := by
  induction rest with
  | nil => rfl
  | cons f rest ih =>
      rw [List.foldl_cons, earlier_of_le hline (h f List.mem_cons_self)]
      exact ih fun g hg => h g (List.mem_cons_of_mem _ hg)

theorem foldl_earlier_of_none (h : ∀ f ∈ rest, f.line? = none) :
    rest.foldl earlier (some best) = some best := by
  induction rest with
  | nil => rfl
  | cons f rest ih =>
      rw [List.foldl_cons, earlier_of_none (h f List.mem_cons_self)]
      exact ih fun g hg => h g (List.mem_cons_of_mem _ hg)

/-- The earliest failure is the one that the comparison of all failures finds. -/
theorem IsEarliest.foldl_eq (h : IsEarliest fs failure) :
    fs.foldl earlier none = some failure := by
  cases h with
  | @located before after line hsplit hline hbefore hafter =>
      have hnext : earlier (before.foldl earlier none) failure = some failure := by
        obtain ⟨-, hnone⟩ | ⟨best, hbest, hearliest⟩ := isEarliest_foldl before
        · rw [hnone]
          rfl
        · rw [hbest]
          exact earlier_of_lt hline (hbefore best hearliest.mem)
      rw [hsplit, List.foldl_append, List.foldl_cons, hnext]
      exact foldl_earlier_of_le hline hafter
  | @unlocated after hsplit hnone =>
      rw [hsplit] at hnone ⊢
      exact foldl_earlier_of_none fun f hf => hnone f (List.mem_cons_of_mem _ hf)

/-- Outcomes without a failure do not take part in the comparison. -/
theorem firstFailure_eq_foldl (outcomes : List (Except (Failure R) α)) :
    firstFailure outcomes = (failures outcomes).foldl earlier none := by
  have hfold : ∀ best : Option (Failure R),
      outcomes.foldl better best = (failures outcomes).foldl earlier best := by
    induction outcomes with
    | nil => exact fun _ => rfl
    | cons first rest ih =>
        intro best
        cases first with
        | ok a => exact ih best
        | error failure => exact ih (earlier best failure)
  exact hfold none

theorem firstFailure_eq_some_iff :
    firstFailure outcomes = some failure ↔ IsEarliest (failures outcomes) failure := by
  rw [firstFailure_eq_foldl]
  constructor
  · intro h
    obtain ⟨-, hnone⟩ | ⟨best, hbest, hearliest⟩ := isEarliest_foldl (failures outcomes)
    · rw [hnone] at h
      cases h
    · rw [hbest] at h
      exact Option.some.inj h ▸ hearliest
  · exact IsEarliest.foldl_eq

theorem failures_eq_nil_iff :
    failures outcomes = [] ↔ ∀ outcome ∈ outcomes, ∃ a, outcome = .ok a := by
  unfold failures
  rw [List.filterMap_eq_nil_iff]
  refine forall₂_congr fun outcome _ => ?_
  cases outcome <;> simp

theorem firstFailure_eq_none_iff :
    firstFailure outcomes = none ↔ ∀ outcome ∈ outcomes, ∃ a, outcome = .ok a := by
  rw [firstFailure_eq_foldl, ← failures_eq_nil_iff]
  constructor
  · intro h
    obtain ⟨hnil, -⟩ | ⟨best, hbest, -⟩ := isEarliest_foldl (failures outcomes)
    · exact hnil
    · rw [h] at hbest
      cases hbest
  · intro h
    rw [h]
    rfl

/-- Each failure has a line, and the lines do not decrease. -/
def InLineOrder (fs : List (Failure R)) : Prop :=
  (∀ f ∈ fs, ∃ line, f.line? = some line) ∧
    fs.Pairwise fun f later => ∀ line number, f.line? = some line → later.line? = some number →
      line ≤ number

/-- In the order of their lines the earliest failure is the first one. -/
theorem InLineOrder.isEarliest_iff (h : InLineOrder fs) :
    IsEarliest fs failure ↔ fs.head? = some failure := by
  have hhead : ∀ first, fs.head? = some first → IsEarliest fs first := by
    intro first hfirst
    obtain ⟨rest, rfl⟩ := List.head?_eq_some_iff.mp hfirst
    obtain ⟨line, hline⟩ := h.1 first List.mem_cons_self
    exact .cons hline fun other hother number hnumber =>
      (List.pairwise_cons.mp h.2).1 other hother line number hline hnumber
  constructor
  · intro hearliest
    obtain ⟨first, rest, rfl⟩ := List.exists_cons_of_ne_nil (List.ne_nil_of_mem hearliest.mem)
    have hfirst := (hhead first rfl).foldl_eq
    rw [hearliest.foldl_eq] at hfirst
    rw [Option.some.inj hfirst]
    rfl
  · exact hhead failure

/-- The first failure among outcomes stands behind outcomes that have succeeded. -/
theorem head?_failures_iff :
    (failures outcomes).head? = some failure ↔
      ∃ i : Nat, outcomes[i]? = some (.error failure) ∧
        ∀ j < i, ∃ a, outcomes[j]? = some (.ok a) := by
  induction outcomes with
  | nil => simp [failures]
  | cons first rest ih =>
      cases first with
      | ok a =>
          refine Iff.trans ih ⟨?_, ?_⟩
          · rintro ⟨i, hi, hbefore⟩
            refine ⟨i + 1, hi, fun j hj => ?_⟩
            cases j with
            | zero => exact ⟨a, rfl⟩
            | succ j => exact hbefore j (by omega)
          · rintro ⟨i, hi, hbefore⟩
            cases i with
            | zero => cases hi
            | succ i => exact ⟨i, hi, fun j hj => hbefore (j + 1) (by omega)⟩
      | error cause =>
          constructor
          · intro h
            obtain rfl : cause = failure := Option.some.inj h
            exact ⟨0, rfl, fun j hj => absurd hj (Nat.not_lt_zero j)⟩
          · rintro ⟨i, hi, hbefore⟩
            cases i with
            | zero =>
                cases hi
                rfl
            | succ i =>
                obtain ⟨a, ha⟩ := hbefore 0 (Nat.succ_pos i)
                cases ha

/-- Each outcome belongs to the request at its place, and a failure has the line of its request. -/
def FailsInLine (rs : List (Request R)) (outcomes : List (Except (Failure R) α)) : Prop :=
  List.Forall₂ (fun r outcome => ∀ failure, outcome = .error failure → failure.line? = some r.line)
    rs outcomes

theorem FailsInLine.exists_request {rs : List (Request R)} (h : FailsInLine rs outcomes) :
    ∀ f ∈ failures outcomes, ∃ r ∈ rs, f.line? = some r.line := by
  induction h with
  | nil => exact nofun
  | @cons r outcome rs outcomes hr hrest ih =>
      intro f hf
      cases outcome with
      | ok a =>
          obtain ⟨x, hx, hline⟩ := ih f hf
          exact ⟨x, List.mem_cons_of_mem _ hx, hline⟩
      | error cause =>
          obtain rfl | hf := List.mem_cons.mp hf
          · exact ⟨r, List.mem_cons_self, hr _ rfl⟩
          · obtain ⟨x, hx, hline⟩ := ih f hf
            exact ⟨x, List.mem_cons_of_mem _ hx, hline⟩

/-- Failures that have the lines of their requests are in the order of these lines. -/
theorem FailsInLine.inLineOrder {rs : List (Request R)} (h : FailsInLine rs outcomes)
    (hlines : rs.Pairwise fun r later => r.line ≤ later.line) :
    InLineOrder (failures outcomes) := by
  constructor
  · intro f hf
    obtain ⟨r, -, hline⟩ := h.exists_request f hf
    exact ⟨r.line, hline⟩
  · induction h with
    | nil => exact .nil
    | @cons r outcome rs outcomes hr hrest ih =>
        obtain ⟨hfirst, hlines⟩ := List.pairwise_cons.mp hlines
        cases outcome with
        | ok a => exact ih hlines
        | error cause =>
            refine List.pairwise_cons.mpr ⟨?_, ih hlines⟩
            intro later hlater line number hline hnumber
            obtain ⟨x, hx, hx'⟩ := FailsInLine.exists_request hrest later hlater
            rw [hr cause rfl] at hline
            rw [hx'] at hnumber
            rw [← Option.some.inj hline, ← Option.some.inj hnumber]
            exact hfirst x hx

end Comparison

/-! ## The outcomes of workers -/

section Workers

variable {setup : Setup R σ} {answers : Answers R} {lines : List (ScriptLine R)}
  {rs : List (Request R)} {order : List Nat} {noted : List (Nat × Except (Failure R) String)}
  {r : Request R} {s t : Session R σ} {failure : Failure R}

/-- What has come of the requests for absent assets, in the order of the script. Each is taken up
once, in the session that the requests before it in the order of the workers have left. -/
structure Attempted (setup : Setup R σ) (lines : List (ScriptLine R)) (s : Session R σ)
    (outcomes : List (Except (Failure R) String)) : Prop where
  length_eq : outcomes.length = (pending setup lines s).length
  turn : ∀ i r outcome, (pending setup lines s)[i]? = some r → outcomes[i]? = some outcome →
    ∃ first rest noted u v,
      setup.schedule.order (pending setup lines s).length = first ++ i :: rest ∧
      runRequests setup (pending setup lines s) first s = .ok noted u ∧
      Work.outcome (materialize setup r) u = .ok outcome v

/-- The first request that has failed: what stands before it has succeeded. -/
def FirstToFail (rs : List (Request R)) (outcomes : List (Except (Failure R) String))
    (failure : Failure R) : Prop :=
  ∃ (i : Nat) (r : Request R), rs[i]? = some r ∧ outcomes[i]? = some (.error failure) ∧
    failure.line? = some r.line ∧ ∀ j < i, ∃ path, outcomes[j]? = some (.ok path)

/-- A generator that does not know the lines of the script fails with the line of the request. -/
theorem line_of_materialize (hc : setup.collaborators.GeneratesUnlocated)
    (h : materialize setup r s = .error failure t) : failure.line? = some r.line := by
  obtain ⟨cause, hcause, rfl⟩ := materialize_eq_error h
  obtain ⟨hensures, -⟩ := ensures_and_materialize_eq setup r s
  rw [hcause] at hensures
  exact line_of_failure (hensures.line_of_error fun f hf => hc r.key r.hint _ f hf)

theorem exists_runRequests_eq (setup : Setup R σ) (rs : List (Request R)) (order : List Nat)
    (s : Session R σ) : ∃ noted t, runRequests setup rs order s = .ok noted t := by
  cases h : runRequests setup rs order s with
  | ok noted t => exact ⟨noted, t, rfl⟩
  | error failure t => exact absurd h (runRequests_ne_error setup rs order s t failure)

/-- Workers note one outcome for each position that they come to. -/
theorem map_fst_runRequests (h : runRequests setup rs order s = .ok noted t)
    (horder : ∀ i ∈ order, i < rs.length) : noted.map Prod.fst = order := by
  induction order generalizing s noted with
  | nil =>
      cases h
      rfl
  | cons i order ih =>
      have hlt : i < rs.length := horder i List.mem_cons_self
      rw [runRequests_cons, List.getElem?_eq_getElem hlt] at h
      obtain ⟨outcome, u, -, h⟩ := Work.bind_eq_ok.mp h
      obtain ⟨more, v, hmore, h⟩ := Work.bind_eq_ok.mp h
      cases h
      rw [List.map_cons, ih hmore fun j hj => horder j (List.mem_cons_of_mem _ hj)]

theorem exists_lookup_of_mem {n : Nat} (h : n ∈ noted.map Prod.fst) :
    ∃ outcome, noted.lookup n = some outcome := by
  obtain ⟨pair, hpair, rfl⟩ := List.mem_map.mp h
  cases hlookup : noted.lookup pair.1 with
  | some outcome => exact ⟨outcome, rfl⟩
  | none => exact absurd (List.lookup_eq_none_iff.mp hlookup pair hpair) (by simp)

theorem mem_of_lookup {n : Nat} {outcome : Except (Failure R) String}
    (h : noted.lookup n = some outcome) : (n, outcome) ∈ noted := by
  obtain ⟨before, after, rfl, -⟩ := List.lookup_eq_some_iff.mp h
  exact List.mem_append_right _ List.mem_cons_self

/-- In the order of the script there is one outcome at each position. -/
theorem filterMap_lookup_of_perm {n : Nat} (h : (noted.map Prod.fst).Perm (List.range n)) :
    ((List.range n).filterMap (List.lookup · noted)).length = n ∧
      ∀ i outcome, ((List.range n).filterMap (List.lookup · noted))[i]? = some outcome →
        (i, outcome) ∈ noted := by
  have hlookup : ∀ i ∈ List.range n, ∃ outcome, noted.lookup i = some outcome :=
    fun i hi => exists_lookup_of_mem (h.mem_iff.mpr hi)
  choose! outcome houtcome using hlookup
  have hall : (List.range n).filterMap (List.lookup · noted) = (List.range n).map outcome := by
    rw [← List.filterMap_eq_map]
    exact List.filterMap_congr houtcome
  rw [hall]
  refine ⟨by rw [List.length_map, List.length_range], fun i found hfound => ?_⟩
  rw [List.getElem?_map] at hfound
  obtain ⟨k, hk, rfl⟩ := Option.map_eq_some_iff.mp hfound
  obtain ⟨hlt, rfl⟩ := List.getElem?_eq_some_iff.mp hk
  rw [List.length_range] at hlt
  rw [List.getElem_range]
  exact mem_of_lookup (houtcome i (List.mem_range.mpr hlt))

/-- Workers attempt each request once and report the earliest failure. -/
theorem exists_attempted (setup : Setup R σ) (lines : List (ScriptLine R)) (s : Session R σ) :
    ∃ outcomes t, Attempted setup lines s outcomes ∧
      prefetch setup lines s = match firstFailure outcomes with
        | some failure => .error failure t
        | none => .ok () t := by
  obtain ⟨noted, t, hrun⟩ := exists_runRequests_eq setup (pending setup lines s)
    (setup.schedule.order (pending setup lines s).length) s
  have hperm := setup.schedule.perm (pending setup lines s).length
  have hfst := map_fst_runRequests hrun fun i hi => List.mem_range.mp (hperm.mem_iff.mp hi)
  obtain ⟨hlength, hmem⟩ := filterMap_lookup_of_perm (hfst ▸ hperm)
  refine ⟨_, t, ⟨hlength, fun i r outcome hr houtcome => ?_⟩, ?_⟩
  · obtain ⟨first, rest, earlier, r', u, v, horder, hr', hfirst, hdone⟩ :=
      exists_of_mem_runRequests hrun (hmem i outcome houtcome)
    rw [hr] at hr'
    cases hr'
    exact ⟨first, rest, earlier, u, v, horder, hfirst, hdone⟩
  · have hreport : ∀ first : Option (Failure R),
        (match first with
          | some failure => throw failure
          | none => return () : Work R σ Unit) t
        = match first with
          | some failure => .error failure t
          | none => .ok () t := by
      intro first
      cases first <;> rfl
    unfold prefetch
    rw [Work.bind_apply_of_ok (Work.get_apply s)]
    exact (Work.bind_apply_of_ok hrun).trans (hreport _)

namespace Attempted

variable {outcomes : List (Except (Failure R) String)}

/-- Where generators do not know lines, the failure of a request has its line. -/
theorem failsInLine (h : Attempted setup lines s outcomes)
    (hc : setup.collaborators.GeneratesUnlocated) :
    FailsInLine (pending setup lines s) outcomes := by
  refine List.forall₂_iff_get.mpr ⟨h.length_eq.symm, fun i hi hi' failure hfailure => ?_⟩
  obtain ⟨first, rest, noted, u, v, -, -, hdone⟩ := h.turn i _ _
    (List.getElem?_eq_getElem hi) (List.getElem?_eq_getElem hi')
  rw [List.get_eq_getElem] at hfailure ⊢
  rw [hfailure] at hdone
  exact line_of_materialize hc (Work.eq_error_of_outcome hdone)

/-- Where lines do not decrease and generators do not know them, the failure that is found is that
of the first request that has failed. -/
theorem firstFailure_eq_some_iff (h : Attempted setup lines s outcomes)
    (hc : setup.collaborators.GeneratesUnlocated)
    (hlines : lines.Pairwise fun line later => line.line < later.line) :
    firstFailure outcomes = some failure ↔
      FirstToFail (pending setup lines s) outcomes failure := by
  have horder : (pending setup lines s).Pairwise fun r later => r.line ≤ later.line :=
    ((pairwise_requests hlines).sublist List.filter_sublist).imp Nat.le_of_lt
  rw [Build.firstFailure_eq_some_iff, ((h.failsInLine hc).inLineOrder horder).isEarliest_iff,
    head?_failures_iff]
  constructor
  · rintro ⟨i, hi, hbefore⟩
    obtain ⟨hlt, hfailure⟩ := List.getElem?_eq_some_iff.mp hi
    rw [h.length_eq] at hlt
    exact ⟨i, _, List.getElem?_eq_getElem hlt, hi,
      (List.forall₂_iff_get.mp (h.failsInLine hc)).2 i hlt _ failure hfailure, hbefore⟩
  · rintro ⟨i, r, -, hi, -, hbefore⟩
    exact ⟨i, hi, hbefore⟩

end Attempted

/-- With collaborators that answer alike and an undisturbed store, it is known beforehand which
requests fail, and the first of them in the order of the script is the one that is reported. -/
theorem prefetch_fails_iff {answers : Answers R}
    (hu : setup.Undisturbed answers ((requests lines).map (·.key)) s.shelf)
    (hquiet : s.surroundings.cancelled = false)
    (hlines : lines.Pairwise fun line later => line.line < later.line) :
    (∃ t, prefetch setup lines s = .error failure t) ↔
      answers.FirstFails (setup.absent s (mentions lines)) failure := by
  obtain ⟨t, -, -, -, hprefetch⟩ :=
    prefetch_eq hu ⟨hquiet, .start⟩ fun r hr => List.mem_map_of_mem hr
  have hfound : ∀ {first}, answers.FirstFails (setup.absent s (mentions lines)) first →
      prefetch setup lines s = .error first t := by
    intro first hfirst
    rw [firstFailure_of_firstFails hu.answers (pairwise_absent setup s hlines) hfirst] at hprefetch
    exact hprefetch
  constructor
  · rintro ⟨t', ht'⟩
    obtain hall | ⟨first, hfirst⟩ := made_or_firstFails answers (setup.absent s (mentions lines))
    · rw [show firstFailure ((setup.absent s (mentions lines)).map (noted setup answers)) = none
        from foldl_better_of_made hall none, ht'] at hprefetch
      cases hprefetch
    · rw [hfound hfirst] at ht'
      cases ht'
      exact hfirst
  · exact fun hfirst => ⟨t, hfound hfirst⟩

/-- **The earliest failure.** The comparison finds no failure just if there is none, and otherwise
the first one with the least line, or the first one of all if none has a line. It is made over the
outcomes of all requests for absent assets in the order of the script, so that for generators that
do not know lines the failure reported is that of the first request that has failed, whichever
worker came first. Which one that is does not depend on the workers at all if the collaborators
answer alike and the store is undisturbed. -/
theorem prefetch_reports_earliest (setup : Setup R σ) (lines : List (ScriptLine R))
    (s : Session R σ) :
    (∀ outcomes : List (Except (Failure R) String),
      (firstFailure outcomes = none ↔ ∀ outcome ∈ outcomes, ∃ path, outcome = .ok path) ∧
      ∀ failure, firstFailure outcomes = some failure ↔
        IsEarliest (failures outcomes) failure) ∧
    ((pending setup lines s).map (·.key)).Nodup ∧
    (∃ outcomes t, Attempted setup lines s outcomes ∧
      (prefetch setup lines s = match firstFailure outcomes with
        | some failure => .error failure t
        | none => .ok () t) ∧
      (setup.collaborators.GeneratesUnlocated →
        (lines.Pairwise fun line later => line.line < later.line) →
        ∀ failure, (∃ t, prefetch setup lines s = .error failure t) ↔
          FirstToFail (pending setup lines s) outcomes failure)) ∧
    ∀ answers, setup.Undisturbed answers ((requests lines).map (·.key)) s.shelf →
      s.surroundings.cancelled = false →
      (lines.Pairwise fun line later => line.line < later.line) →
      ∀ failure, (∃ t, prefetch setup lines s = .error failure t) ↔
        answers.FirstFails (setup.absent s (mentions lines)) failure := by
  obtain ⟨outcomes, t, hattempted, hprefetch⟩ := exists_attempted setup lines s
  refine ⟨fun outcomes => ⟨firstFailure_eq_none_iff, fun failure => firstFailure_eq_some_iff⟩,
    (nodup_firstRequests [] (mentions lines)).sublist (List.filter_sublist.map _),
    ⟨outcomes, t, hattempted, hprefetch, fun hc hlines failure => ?_⟩,
    fun answers hu hquiet hlines failure => prefetch_fails_iff hu hquiet hlines⟩
  rw [← hattempted.firstFailure_eq_some_iff hc hlines, hprefetch]
  cases firstFailure outcomes <;> simp

end Workers

end Build

/-- Nothing but failures. -/
def busyAnswers : Answers Float :=
  constantAnswers (.error (.other "busy" [])) (.error (.other "busy" [])) (.ok 2)

/-- Two workers that come to the last request first, and whose generators are all busy. -/
def backwardSetup : Setup Float Unit :=
  { twoWorkers with
    collaborators := constantCollaborators (.error (.other "busy" [])) (.error (.other "busy" []))
      (.ok 2)
    schedule := ⟨fun n => (List.range n).reverse, fun _ => List.reverse_perm _⟩ }

/-- The boom fails before the greeting does, and yet it is the greeting that is reported. -/
theorem prefetch_reports_earliest_hello :
    backwardSetup.collaborators.GeneratesUnlocated ∧
    backwardSetup.Undisturbed busyAnswers ((requests boomScript).map (·.key))
      freshSession.shelf ∧
    ∃ failure t outcomes,
      Build.prefetch backwardSetup boomScript freshSession = .error failure t ∧
      failure.line? = some 1 ∧
      Build.FirstToFail (Build.pending backwardSetup boomScript freshSession) outcomes failure ∧
      busyAnswers.FirstFails (backwardSetup.absent freshSession (mentions boomScript)) failure := by
  have hlines : boomScript.Pairwise fun line later => line.line < later.line := by decide
  have hunlocated : backwardSetup.collaborators.GeneratesUnlocated :=
    Collaborators.Unlocated.generates ⟨fun _ _ _ _ h => by cases h; rfl,
      fun _ _ _ _ _ h => by cases h; rfl, nofun⟩
  have hapart : Digest.leading "boom" ≠ Digest.leading "Hello" := by decide +kernel
  have hundisturbed : backwardSetup.Undisturbed busyAnswers ((requests boomScript).map (·.key))
      freshSession.shelf := by
    have hkeys : (requests boomScript).map (·.key) = [greeting, ⟨.sound, "boom"⟩] := by decide
    have hnone : ∀ key ∈ [greeting, ⟨.sound, "boom"⟩],
        freshSession.shelf.disk.get? (Path.place (backwardSetup.store.pathFor key)) = none := by
      decide +kernel
    rw [hkeys]
    refine ⟨answersBy_constant _ ?_ ?_, by decide, ?_, ?_, by decide +kernel⟩
    · intro failure h
      cases h
      rfl
    · intro failure h
      cases h
      rfl
    · intro key hkey other hother heq
      obtain rfl | rfl := List.mem_pair.mp hkey <;> obtain rfl | rfl := List.mem_pair.mp hother
      · rfl
      · exact absurd heq.symm hapart
      · exact absurd heq hapart
      · rfl
    · intro key hkey content hg
      rw [hnone key hkey] at hg
      cases hg
  obtain ⟨-, -, ⟨outcomes, t, -, -, hfirst⟩, hfails⟩ :=
    Build.prefetch_reports_earliest backwardSetup boomScript freshSession
  have hline : ((Build.prefetch backwardSetup boomScript).failure? freshSession).map
      Failure.line? = some (some 1) := by decide +kernel
  obtain ⟨failure, hfailure, hline⟩ := Option.map_eq_some_iff.mp hline
  obtain ⟨t', hprefetch⟩ := Work.failure?_eq_some_iff.mp hfailure
  exact ⟨hunlocated, hundisturbed, failure, t', outcomes, hprefetch, hline,
    (hfirst hunlocated hlines failure).mp ⟨t', hprefetch⟩,
    (hfails _ hundisturbed rfl hlines failure).mp ⟨t', hprefetch⟩⟩

end Soundstage
