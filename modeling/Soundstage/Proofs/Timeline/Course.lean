import Soundstage.Proofs.Asset.Lasting
import Soundstage.Proofs.Timeline.Stages

/-!
# The course of a build

A build goes from session to session: its workers come first, then its commands one after the
other, and last the tracks that are left. The definitions here name the sessions in between,
`Build.Opens` for the first command and `Build.Asked` for each moment in which an asset is asked
for. What every single call keeps, `Setup.Upholds`, holds from the start of a build to any of these
moments and to its end, whether the build succeeds or fails.
-/

namespace Soundstage

variable {R σ α β : Type}

namespace Work

variable {work : Work R σ α} {next : α → Work R σ β} {s t : Session R σ} {a : α}
  {failure : Failure R} {I : Session R σ → Session R σ → Prop}

/-- The session that a computation leaves behind. -/
def behind (work : Work R σ α) (s : Session R σ) : Session R σ :=
  match work s with
  | .ok _ t => t
  | .error _ t => t

theorem behind_of_ok (h : work s = .ok a t) : work.behind s = t := by
  unfold behind
  rw [h]

theorem behind_of_error (h : work s = .error failure t) : work.behind s = t := by
  unfold behind
  rw [h]

/-- What holds behind a computation holds where it has answered. -/
theorem upto_of_ok (h : work s = .ok a t) (hI : I s (work.behind s)) : I s t :=
  behind_of_ok h ▸ hI

theorem behind_bind_of_ok (h : work s = .ok a t) :
    (work >>= next).behind s = (next a).behind t := by
  unfold behind
  rw [bind_apply_of_ok h]

theorem behind_bind_of_error (h : work s = .error failure t) : (work >>= next).behind s = t :=
  behind_of_error (bind_apply_of_error h)

/-- What comes second leaves the session alone. -/
theorem behind_bind_of_still (h : ∀ a t, (next a).behind t = t) :
    (work >>= next).behind s = work.behind s := by
  cases hw : work s with
  | ok a t => rw [behind_bind_of_ok hw, h a t, behind_of_ok hw]
  | error failure t => rw [behind_bind_of_error hw, behind_of_error hw]

@[simp] theorem behind_atLine (line : Nat) (work : Work R σ α) (s : Session R σ) :
    (atLine line work).behind s = work.behind s := by
  unfold behind atLine
  cases work s <;> rfl

@[simp] theorem behind_outcome (work : Work R σ α) (s : Session R σ) :
    (outcome work).behind s = work.behind s := by
  unfold behind outcome
  cases work s <;> rfl

theorem behind_probe (c : Collaborators R σ) (path : String) (s : Session R σ) :
    (probe c path).behind s = { s with surroundings :=
      (s.surroundings.ask (.probe path) (c.probe path s.shelf.disk)).2 } := by
  unfold behind probe
  rcases s.surroundings.ask (.probe path) (c.probe path s.shelf.disk) with
    ⟨_ | _, surroundings⟩ <;> rfl

theorem behind_checkpoint (c : Collaborators R σ) (what : String) (s : Session R σ) :
    (checkpoint c what).behind s = { s with surroundings := { s.surroundings with
      cancelled := s.surroundings.cancelled || (c.meanwhile s.surroundings.state).1
      state := (c.meanwhile s.surroundings.state).2 } } := by
  unfold behind checkpoint
  dsimp only
  cases s.surroundings.cancelled || (c.meanwhile s.surroundings.state).1 <;> rfl

/-- What two computations keep one after the other. -/
theorem behind_bind (trans : ∀ {s t u}, I s t → I t u → I s u) (h : I s (work.behind s))
    (hnext : ∀ a t, work s = .ok a t → I t ((next a).behind t)) :
    I s ((work >>= next).behind s) := by
  cases hw : work s with
  | ok a t =>
      rw [behind_bind_of_ok hw]
      rw [behind_of_ok hw] at h
      exact trans h (hnext a t hw)
  | error failure t =>
      rw [behind_bind_of_error hw]
      rw [behind_of_error hw] at h
      exact h

end Work

/-- Whatever a build does to a session keeps a relation between the session before and behind: it is
kept by each call to the store, by each measurement, and by the time between two commands. -/
structure Setup.Upholds (setup : Setup R σ) (I : Session R σ → Session R σ → Prop) : Prop where
  refl : ∀ s, I s s
  trans : ∀ {s t u}, I s t → I t u → I s u
  materialize : ∀ r s, I s ((Build.materialize setup r).behind s)
  probe : ∀ path s, I s ((Work.probe setup.collaborators path).behind s)
  checkpoint : ∀ what s, I s ((Work.checkpoint setup.collaborators what).behind s)

/-- What comes second keeps the relation from the end of what came first. -/
theorem Setup.Upholds.second {setup : Setup R σ} {I : Session R σ → Session R σ → Prop}
    (hI : setup.Upholds I) {work : Work R σ α} {next : α → Work R σ β}
    (hnext : ∀ a t, I t ((next a).behind t)) (s : Session R σ) :
    I (work.behind s) ((work >>= next).behind s) := by
  cases hw : work s with
  | ok a t =>
      rw [Work.behind_of_ok hw, Work.behind_bind_of_ok hw]
      exact hnext a t
  | error failure t =>
      rw [Work.behind_of_error hw, Work.behind_bind_of_error hw]
      exact hI.refl t

namespace Build

variable [Scalar R] {setup : Setup R σ} {lines : List (ScriptLine R)} {line : ScriptLine R}
  {p q : Progress R} {s t u : Session R σ} {r : Request R} {failure : Failure R}

/-- Runs commands over a clock that starts at zero. -/
def commands (setup : Setup R σ) (lines : List (ScriptLine R)) : Work R σ (Progress R) :=
  lines.foldlM (step setup) { clock := Scalar.zero }

/-- Stops the tracks that still play behind the last command. -/
def flushAll (setup : Setup R σ) (p : Progress R) : Work R σ (Progress R) :=
  p.live.foldlM (flushLeft setup) { p with live := [] }

theorem commands_append (setup : Setup R σ) (done rest : List (ScriptLine R)) :
    commands setup (done ++ rest) = commands setup done >>= fun p => rest.foldlM (step setup) p :=
  List.foldlM_append

/-- Running one command more. -/
theorem commands_concat_eq_ok {done : List (ScriptLine R)} :
    commands setup (done ++ [line]) s = .ok q t ↔
      ∃ p u, commands setup done s = .ok p u ∧ step setup p line u = .ok q t := by
  rw [commands_append, Work.bind_eq_ok]
  refine exists_congr fun p => exists_congr fun u => and_congr_right fun _ => ?_
  rw [List.foldlM_cons, Work.bind_eq_ok]
  constructor
  · rintro ⟨p', u', hstep, hrest⟩
    cases hrest
    exact hstep
  · intro hstep
    exact ⟨q, t, hstep, rfl⟩

/-- A run that comes to the end has come past each of its commands. -/
theorem exists_commands_of_append {done rest : List (ScriptLine R)}
    (h : commands setup (done ++ rest) s = .ok q t) :
    ∃ p u, commands setup done s = .ok p u ∧ rest.foldlM (step setup) p u = .ok q t := by
  rw [commands_append] at h
  exact Work.bind_eq_ok.mp h

theorem step_eq_ok_iff : step setup p line s = .ok q t ↔
    ∃ p' u, Work.checkpoint setup.collaborators "timeline build" s = .ok () u ∧
      apply setup p line u = .ok p' t ∧
      q = { p' with report := { p'.report with commands := p'.report.commands + 1 } } := by
  unfold step
  rw [Work.bind_eq_ok]
  constructor
  · rintro ⟨⟨⟩, u, hcheck, h⟩
    obtain ⟨p', v, happly, h⟩ := Work.bind_eq_ok.mp h
    cases h
    exact ⟨p', u, Work.atLine_eq_ok.mp hcheck, happly, rfl⟩
  · rintro ⟨p', u, hcheck, happly, rfl⟩
    exact ⟨(), u, Work.atLine_eq_ok.mpr hcheck, Work.bind_eq_ok.mpr ⟨p', t, happly, rfl⟩⟩

/-- A build that comes to its end has run its commands, has stopped the tracks that were left and
has checked its timeline. -/
theorem conclude_eq_ok_iff {result : Timeline R × Report} :
    conclude setup lines s = .ok result t ↔ ∃ p u q, commands setup lines s = .ok p u ∧
      flushAll setup p u = .ok q t ∧ finish q = .ok result := by
  unfold conclude
  rw [Work.bind_eq_ok]
  constructor
  · rintro ⟨q, v, hrun, hfinish⟩
    obtain ⟨p, u, hcommands, hflush⟩ := Work.bind_eq_ok.mp hrun
    cases hf : finish q with
    | error failure =>
        simp only [hf] at hfinish
        cases hfinish
    | ok done =>
        simp only [hf] at hfinish
        cases hfinish
        exact ⟨p, u, q, hcommands, hflush, hf⟩
  · rintro ⟨p, u, q, hcommands, hflush, hfinish⟩
    refine ⟨q, t, Work.bind_eq_ok.mpr ⟨p, u, hcommands, hflush⟩, ?_⟩
    simp only [hfinish]
    rfl

section Upholds

variable {I : Session R σ → Session R σ → Prop} (hI : setup.Upholds I)

include hI

theorem upholds_measure (path : String) (line : Nat) (s : Session R σ) :
    I s ((measure setup path line).behind s) := by
  refine Work.behind_bind hI.trans ?_ fun length t _ => ?_
  · rw [Work.behind_atLine]
    exact hI.probe path s
  · split
    · exact hI.refl t
    · exact hI.refl t

theorem upholds_loopLength (p : Progress R) (path : String) (line : Nat) (s : Session R σ) :
    I s ((loopLength setup p path line).behind s) := by
  unfold loopLength
  cases p.loops.lookup path with
  | some length => exact hI.refl s
  | none =>
      exact Work.behind_bind hI.trans (upholds_measure hI path line s) fun _ t _ => hI.refl t

theorem upholds_flush (p : Progress R) (track : Track R) (line : Nat) (s : Session R σ) :
    I s ((flush setup p track line).behind s) := by
  unfold flush
  dsimp only
  split
  · exact hI.refl s
  · refine Work.behind_bind hI.trans (upholds_loopLength hI p track.path line s) ?_
    rintro ⟨length, p'⟩ t -
    dsimp only
    split
    · exact hI.refl t
    · exact hI.refl t

/-- A command that needs an asset first asks for it. -/
theorem exists_perform_eq (h : line.request? = some r) (p : Progress R) :
    ∃ next : String → Work R σ (Progress R), perform setup p line = materialize setup r >>= next ∧
      ∀ path s, I s ((next path).behind s) := by
  obtain ⟨number, command⟩ := line
  cases command with
  | voice pan phrase =>
      cases h
      refine ⟨_, rfl, fun path s => ?_⟩
      exact Work.behind_bind hI.trans (upholds_measure hI path number s) fun _ t _ => hI.refl t
  | sound pan duration description =>
      cases h
      exact ⟨_, rfl, fun path s => hI.refl s⟩
  | backgroundStart pan description =>
      cases h
      exact ⟨_, rfl, fun path s => hI.refl s⟩
  | backgroundStop description => cases h
  | wait duration => cases h

theorem upholds_perform (p : Progress R) (line : ScriptLine R) (s : Session R σ) :
    I s ((perform setup p line).behind s) := by
  cases hr : line.request? with
  | some r =>
      obtain ⟨next, heq, hnext⟩ := exists_perform_eq hI hr p
      rw [heq]
      exact Work.behind_bind hI.trans (hI.materialize r s) fun path t _ => hnext path t
  | none =>
      obtain ⟨number, command⟩ := line
      cases command with
      | voice pan phrase => cases hr
      | sound pan duration description => cases hr
      | backgroundStart pan description => cases hr
      | backgroundStop description =>
          unfold perform
          dsimp only
          split
          · exact hI.refl s
          · exact upholds_flush hI _ _ _ s
      | wait duration => exact hI.refl s

theorem upholds_apply (p : Progress R) (line : ScriptLine R) (s : Session R σ) :
    I s ((apply setup p line).behind s) := by
  cases hrecheck : p.recheck line with
  | error failure =>
      rw [Work.behind_of_error (apply_of_refused hrecheck)]
      exact hI.refl s
  | ok _ =>
      rw [apply_of_rechecked hrecheck]
      exact upholds_perform hI p line s

theorem upholds_step (p : Progress R) (line : ScriptLine R) (s : Session R σ) :
    I s ((step setup p line).behind s) := by
  refine Work.behind_bind hI.trans ?_ fun _ t _ => ?_
  · rw [Work.behind_atLine]
    exact hI.checkpoint _ s
  · exact Work.behind_bind hI.trans (upholds_apply hI p line t) fun _ u _ => hI.refl u

omit [Scalar R] in
theorem upholds_foldlM {α β : Type} {f : β → α → Work R σ β}
    (hf : ∀ b a s, I s ((f b a).behind s)) (list : List α) (b : β) (s : Session R σ) :
    I s ((list.foldlM f b).behind s) := by
  induction list generalizing b s with
  | nil => exact hI.refl s
  | cons first rest ih =>
      rw [List.foldlM_cons]
      exact Work.behind_bind hI.trans (hf b first s) fun c t _ => ih c t

theorem upholds_flushLeft (p : Progress R) (track : Track R) (s : Session R σ) :
    I s ((flushLeft setup p track).behind s) :=
  Work.behind_bind hI.trans (upholds_flush hI p track track.line s) fun _ t _ => hI.refl t

theorem upholds_flushAll (p : Progress R) (s : Session R σ) :
    I s ((flushAll setup p).behind s) :=
  upholds_foldlM hI (upholds_flushLeft hI) p.live _ s

theorem upholds_run (lines : List (ScriptLine R)) (s : Session R σ) :
    I s ((run setup lines).behind s) :=
  Work.behind_bind hI.trans (upholds_foldlM hI (upholds_step hI) lines _ s)
    fun p t _ => upholds_flushAll hI p t

theorem upholds_conclude (lines : List (ScriptLine R)) (s : Session R σ) :
    I s ((conclude setup lines).behind s) := by
  refine Work.behind_bind hI.trans (upholds_run hI lines s) fun p t _ => ?_
  split
  · exact hI.refl t
  · exact hI.refl t

omit [Scalar R] in
theorem upholds_runRequests (rs : List (Request R)) (order : List Nat) (s : Session R σ) :
    I s ((runRequests setup rs order).behind s) := by
  induction order generalizing s with
  | nil => exact hI.refl s
  | cons i rest ih =>
      unfold runRequests
      cases rs[i]? with
      | none => exact ih s
      | some r =>
          refine Work.behind_bind hI.trans ?_ fun outcome t _ => ?_
          · rw [Work.behind_outcome]
            exact hI.materialize r s
          · exact Work.behind_bind hI.trans (ih t) fun _ u _ => hI.refl u

omit [Scalar R] in
theorem upholds_prefetch (lines : List (ScriptLine R)) (s : Session R σ) :
    I s ((prefetch setup lines).behind s) := by
  refine Work.behind_bind hI.trans (hI.refl s) fun now t _ => ?_
  refine Work.behind_bind hI.trans (upholds_runRequests hI _ _ t) fun outcomes u _ => ?_
  split
  · exact hI.refl u
  · exact hI.refl u

end Upholds

/-- The session in which the first command of a build runs. -/
inductive Opens (setup : Setup R σ) (lines : List (ScriptLine R)) (s : Session R σ) :
    Session R σ → Prop
  | alone (hw : ¬ 1 < setup.workers) : Opens setup lines s s
  | ahead {u : Session R σ} (hw : 1 < setup.workers) (h : prefetch setup lines s = .ok () u) :
      Opens setup lines s u

/-- The requests that workers take up. -/
def pending (setup : Setup R σ) (lines : List (ScriptLine R)) (s : Session R σ) :
    List (Request R) :=
  (requests lines).filter fun r => (setup.store.lookup r.key s.shelf.disk).isNone

/-- A build comes to a command: it has run all commands before it, in a script that has been
checked. -/
inductive ComesTo (setup : Setup R σ) (lines : List (ScriptLine R)) (s : Session R σ)
    (before : List (ScriptLine R)) (line : ScriptLine R) (p : Progress R) (t : Session R σ) : Prop
  | intro {after : List (ScriptLine R)} {v : Session R σ} (hc : checkStructure lines = .ok ())
      (hlines : lines = before ++ line :: after) (hopens : Opens setup lines s v)
      (hbefore : commands setup before v = .ok p t)

/-- The moments of a build in which an asset is asked for: a worker takes up a request, or a command
that is not given up comes to its asset. -/
inductive Asked (setup : Setup R σ) (lines : List (ScriptLine R)) (s : Session R σ) :
    Request R → Session R σ → Prop
  | worker {first rest : List Nat} {i : Nat} {r : Request R} {u : Session R σ}
      {outcomes : List (Nat × Except (Failure R) String)} (hc : checkStructure lines = .ok ())
      (hw : 1 < setup.workers)
      (horder : setup.schedule.order (pending setup lines s).length = first ++ i :: rest)
      (hr : (pending setup lines s)[i]? = some r)
      (hfirst : runRequests setup (pending setup lines s) first s = .ok outcomes u) :
      Asked setup lines s r u
  | command {before : List (ScriptLine R)} {line : ScriptLine R} {r : Request R}
      {p : Progress R} {t u : Session R σ} (h : ComesTo setup lines s before line p t)
      (hr : line.request? = some r)
      (hcheck : Work.checkpoint setup.collaborators "timeline build" t = .ok () u) :
      Asked setup lines s r u

omit [Scalar R] in
theorem runRequests_cons (setup : Setup R σ) (rs : List (Request R)) (i : Nat) (rest : List Nat) :
    runRequests setup rs (i :: rest) = match rs[i]? with
      | none => runRequests setup rs rest
      | some r => do
        let outcome ← Work.outcome (materialize setup r)
        return (i, outcome) :: (← runRequests setup rs rest) := rfl

omit [Scalar R] in
/-- Workers go on behind the first ones. -/
theorem runRequests_append {rs : List (Request R)} {first rest : List Nat}
    {outcomes : List (Nat × Except (Failure R) String)}
    (h : runRequests setup rs first s = .ok outcomes u) :
    runRequests setup rs (first ++ rest) s
      = (runRequests setup rs rest >>= fun more => return outcomes ++ more) u := by
  induction first generalizing s outcomes with
  | nil =>
      cases h
      rw [List.nil_append]
      exact congrFun (bind_pure (runRequests setup rs rest)).symm u
  | cons i first ih =>
      rw [List.cons_append, runRequests_cons]
      rw [runRequests_cons] at h
      cases hi : rs[i]? with
      | none =>
          rw [hi] at h
          exact ih h
      | some r =>
          rw [hi] at h
          obtain ⟨outcome, v, houtcome, h⟩ := Work.bind_eq_ok.mp h
          obtain ⟨earlier, w, hearlier, h⟩ := Work.bind_eq_ok.mp h
          cases h
          have hgo := ih hearlier
          refine (Work.bind_apply_of_ok houtcome).trans ?_
          cases hmore : runRequests setup rs rest u with
          | ok more x =>
              rw [Work.bind_apply_of_ok hmore] at hgo ⊢
              exact Work.bind_apply_of_ok hgo
          | error failure x =>
              rw [Work.bind_apply_of_error hmore] at hgo ⊢
              exact Work.bind_apply_of_error hgo

end Build

/-- A build that succeeds has checked its script, and has gone through all commands. -/
theorem build_eq_ok_iff [Scalar R] {setup : Setup R σ} {lines : List (ScriptLine R)}
    {s t : Session R σ} {result : Timeline R × Report} :
    build setup lines s = .ok result t ↔ checkStructure lines = .ok () ∧
      ∃ u, Build.Opens setup lines s u ∧ Build.conclude setup lines u = .ok result t := by
  constructor
  · intro h
    obtain ⟨hc, -⟩ := build_eq_ok h
    refine ⟨hc, ?_⟩
    by_cases hw : 1 < setup.workers
    · rw [build_of_many_workers hc hw] at h
      obtain ⟨⟨⟩, u, hprefetch, h⟩ := Work.bind_eq_ok.mp h
      exact ⟨u, .ahead hw hprefetch, h⟩
    · rw [build_of_one_worker hc hw] at h
      exact ⟨s, .alone hw, h⟩
  · rintro ⟨hc, u, hopens, h⟩
    cases hopens with
    | alone hw => rwa [build_of_one_worker hc hw]
    | ahead hw hprefetch =>
        rw [build_of_many_workers hc hw, Work.bind_apply_of_ok hprefetch]
        exact h

namespace Build

variable [Scalar R] {setup : Setup R σ} {lines : List (ScriptLine R)} {s u v : Session R σ}
  {r : Request R} {I : Session R σ → Session R σ → Prop}

theorem behind_build_of_opens (hc : checkStructure lines = .ok ()) (h : Opens setup lines s u) :
    (build setup lines).behind s = (conclude setup lines).behind u := by
  cases h with
  | alone hw =>
      unfold Work.behind
      rw [build_of_one_worker hc hw]
  | ahead hw hprefetch =>
      have hbuild := build_of_many_workers (s := s) hc hw
      rw [Work.bind_apply_of_ok hprefetch] at hbuild
      unfold Work.behind
      rw [hbuild]

omit [Scalar R] in
/-- What every call keeps, a build keeps up to its first command. -/
theorem Opens.upholds (hI : setup.Upholds I) (h : Opens setup lines s u) : I s u := by
  cases h with
  | alone => exact hI.refl s
  | ahead hw hprefetch => exact Work.upto_of_ok hprefetch (upholds_prefetch hI lines s)

/-- What every call keeps, a build keeps, however it ends. -/
theorem upholds_build (hI : setup.Upholds I) (lines : List (ScriptLine R)) (s : Session R σ) :
    I s ((build setup lines).behind s) := by
  cases hc : checkStructure lines with
  | error failure =>
      rw [Work.behind_of_error (build_of_refused hc)]
      exact hI.refl s
  | ok _ =>
      by_cases hw : 1 < setup.workers
      · have hbind : (build setup lines).behind s
            = (prefetch setup lines >>= fun _ => conclude setup lines).behind s := by
          unfold Work.behind
          rw [build_of_many_workers hc hw]
        rw [hbind]
        exact Work.behind_bind hI.trans (upholds_prefetch hI lines s)
          fun _ t _ => upholds_conclude hI lines t
      · rw [behind_build_of_opens hc (.alone hw)]
        exact upholds_conclude hI lines s

/-- Up to each command. -/
theorem ComesTo.upholds (hI : setup.Upholds I) {before : List (ScriptLine R)}
    {line : ScriptLine R} {p : Progress R} {t : Session R σ}
    (h : ComesTo setup lines s before line p t) : I s t := by
  obtain @⟨after, v, hc, hlines, hopens, hbefore⟩ := h
  have hcommands := Work.upto_of_ok hbefore (upholds_foldlM hI (upholds_step hI) before _ v)
  exact hI.trans (hopens.upholds hI) hcommands

/-- Up to each moment in which an asset is asked for. -/
theorem Asked.upholds (hI : setup.Upholds I) (h : Asked setup lines s r u) : I s u := by
  cases h with
  | @worker first _ _ _ _ _ hc hw horder hr hfirst =>
      exact Work.upto_of_ok hfirst (upholds_runRequests hI (pending setup lines s) first s)
  | command h hr hcheck =>
      exact hI.trans (h.upholds hI) (Work.upto_of_ok hcheck (hI.checkpoint "timeline build" _))

/-- What comes behind the workers. -/
theorem upholds_behind_prefetch (hI : setup.Upholds I) (hc : checkStructure lines = .ok ())
    (hw : 1 < setup.workers) (s : Session R σ) :
    I ((prefetch setup lines).behind s) ((build setup lines).behind s) := by
  have hbehind : (build setup lines).behind s
      = (prefetch setup lines >>= fun _ => conclude setup lines).behind s := by
    unfold Work.behind
    rw [build_of_many_workers hc hw]
  rw [hbehind]
  exact hI.second (fun _ t => upholds_conclude hI lines t) s

/-- What comes behind the commands. -/
theorem upholds_behind_commands (hI : setup.Upholds I) (hc : checkStructure lines = .ok ())
    (h : Opens setup lines s v) :
    I ((commands setup lines).behind v) ((build setup lines).behind s) := by
  have hrun : I ((commands setup lines).behind v) ((run setup lines).behind v) :=
    hI.second (fun q w => upholds_flushAll hI q w) v
  have hconclude : I ((run setup lines).behind v) ((conclude setup lines).behind v) := by
    refine hI.second (fun q w => ?_) v
    split
    · exact hI.refl w
    · exact hI.refl w
  rw [behind_build_of_opens hc h]
  exact hI.trans hrun hconclude

omit [Scalar R] in
/-- What comes behind the answer to the first request of some workers. -/
theorem upholds_behind_runRequests (hI : setup.Upholds I) {rs : List (Request R)} {i : Nat}
    (hr : rs[i]? = some r) (rest : List Nat) (u : Session R σ) :
    I ((materialize setup r).behind u) ((runRequests setup rs (i :: rest)).behind u) := by
  rw [runRequests_cons, hr, ← Work.behind_outcome]
  refine hI.second (fun outcome t => ?_) u
  refine Work.behind_bind hI.trans (upholds_runRequests hI rs rest t) fun _ v _ => ?_
  exact hI.refl v

omit [Scalar R] in
/-- What comes behind the last worker. -/
theorem upholds_behind_workers (hI : setup.Upholds I) (lines : List (ScriptLine R))
    (s : Session R σ) :
    I ((runRequests setup (pending setup lines s)
        (setup.schedule.order (pending setup lines s).length)).behind s)
      ((prefetch setup lines).behind s) := by
  unfold prefetch
  rw [Work.behind_bind_of_ok (Work.get_apply s)]
  refine hI.second (fun outcomes t => ?_) s
  split
  · exact hI.refl t
  · exact hI.refl t

end Build

end Soundstage
