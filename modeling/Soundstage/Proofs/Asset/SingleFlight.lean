import Mathlib.Algebra.BigOperators.Fin
import Soundstage.Proofs.Asset.Flight

/-!
# One flight for an asset

The promises of the store to several callers of one asset, at every moment of every order in which
they run: `Flight.Orderly`. The invariants of a flight give the promises on files and locks; the
counts follow from how each step changes them; and that a failure leaves the others free is shown by
the steps that lead them on.
-/

namespace Soundstage

variable {R : Type} {callers processes : Nat}

/-- A sum over the values of a function, one of which is replaced. -/
theorem sum_withValue {α β : Type} [Fintype α] [DecidableEq α] (f : α → β) (a : α) (b : β)
    (g : β → Nat) : ∑ x, g (withValue f a b x) + g (f a) = ∑ x, g (f x) + g b := by
  have hleft := Finset.sum_erase_add Finset.univ (fun x => g (withValue f a b x))
    (Finset.mem_univ a)
  have hright := Finset.sum_erase_add Finset.univ (fun x => g (f x)) (Finset.mem_univ a)
  have hrest : ∑ x ∈ Finset.univ.erase a, g (withValue f a b x)
      = ∑ x ∈ Finset.univ.erase a, g (f x) := by
    refine Finset.sum_congr rfl fun x hx => ?_
    rw [withValue_of_ne _ _ (Finset.ne_of_mem_erase hx)]
  simp only [withValue_self] at hleft
  omega

namespace Flight

variable {flight : Flight callers processes} {disk disk' : Disk}
  {m n : Moment R callers processes} {i j : Fin callers}

/-- A caller that has the asset was given it or has found it, and answers with its path. -/
theorem Act.of_served (ha : flight.Act m i n) {path : String}
    (hi : n.phase i = .leaving (.ok path) ∨ n.phase i = .finished (.ok path)) :
    m.phase i = .leaving (.ok path) ∨ path = flight.goal ∧ n.disk.isFile flight.goal = true := by
  cases ha with
  | miss phase hf hp =>
      rw [Moment.goto_phase, withValue_self] at hi
      rcases hp with ⟨-, rfl⟩ | ⟨-, rfl⟩ | ⟨-, rfl⟩ <;> rcases hi with hi | hi <;> cases hi
  | hit phase hf hp =>
      rw [Moment.goto_phase, withValue_self] at hi
      rcases hp with ⟨-, rfl⟩ | ⟨-, rfl⟩ <;> rcases hi with hi | hi <;> cases hi
      · exact .inr ⟨rfl, hf⟩
      · exact .inr ⟨rfl, hf⟩
  | moved temporary disk hp hw =>
      rw [Moment.goto_phase, withValue_self] at hi
      obtain ⟨-, content, -, hmoved⟩ := Store.moveIntoPlace_eq_ok hw
      rcases hi with hi | hi <;> cases hi
      exact .inr ⟨rfl, hmoved.isFile⟩
  | leave result hp =>
      change withValue m.phase i (.finished result) i = _ ∨
        withValue m.phase i (.finished result) i = _ at hi
      rw [withValue_self] at hi
      rcases hi with hi | hi <;> cases hi
      exact .inl hp
  | _ =>
      rw [Moment.goto_phase, withValue_self] at hi
      rcases hi with hi | hi <;> cases hi

theorem Reachable.served (h : flight.Reachable disk m) {path : String}
    (hi : m.phase i = .leaving (.ok path) ∨ m.phase i = .finished (.ok path)) :
    path = flight.goal ∧ m.disk.isFile flight.goal = true := by
  induction h generalizing i with
  | initial => rcases hi with hi | hi <;> cases hi
  | step hm hstep ih =>
      obtain ⟨j, ha⟩ := hstep.act
      have hstays := hm.isFile_leads (.single hstep)
      by_cases hij : i = j
      · subst hij
        rcases ha.of_served hi with hbefore | hnow
        · obtain ⟨hpath, hf⟩ := ih (.inl hbefore)
          exact ⟨hpath, hstays hf⟩
        · exact hnow
      · rw [ha.phase_of_ne hij] at hi
        obtain ⟨hpath, hf⟩ := ih hi
        exact ⟨hpath, hstays hf⟩

/-- How many calls have been counted in all processes. -/
def counted (m : Moment R callers processes) : Nat := ∑ p, (m.stats p).total

/-- How many assets have been generated in all processes. -/
def generated (m : Moment R callers processes) : Nat := ∑ p, (m.stats p).generated

/-- How many callers have the asset. -/
def served (m : Moment R callers processes) : Nat :=
  (Finset.univ.filter fun i => (m.phase i).isServed = true).card

theorem served_eq_sum (m : Moment R callers processes) :
    served m = ∑ i, (m.phase i).isServed.toNat := by
  rw [served, Finset.card_filter]
  refine Finset.sum_congr rfl fun i _ => ?_
  cases (m.phase i).isServed <;> rfl

theorem served_of_phase {phase : Phase R} (hn : n.phase = withValue m.phase i phase) :
    served n + (m.phase i).isServed.toNat = served m + phase.isServed.toNat := by
  rw [served_eq_sum, served_eq_sum, hn]
  exact sum_withValue m.phase i phase fun phase => phase.isServed.toNat

/-- What one step counts: nothing, or a caller that has the asset from now on. If it counts an asset
as generated, the asset has been absent and is there now. -/
theorem Act.counts (ha : flight.Act m i n) (hm : flight.Reachable disk m) :
    (counted n = counted m ∧ served n = served m ∧ generated n = generated m) ∨
      counted n = counted m + 1 ∧ served n = served m + 1 ∧
        (generated n = generated m ∨ generated n = generated m + 1 ∧
          m.disk.isFile flight.goal = false ∧ n.disk.isFile flight.goal = true) := by
  have hsame : ∀ {phase : Phase R}, n.phase = withValue m.phase i phase →
      n.stats = m.stats → phase.isServed = (m.phase i).isServed →
      counted n = counted m ∧ served n = served m ∧ generated n = generated m := by
    intro phase hphase hstats hserved
    have hcount := served_of_phase hphase
    rw [hserved] at hcount
    exact ⟨by rw [counted, hstats, counted], by omega, by rw [generated, hstats, generated]⟩
  have hnext : ∀ {phase : Phase R} {stats : Stats}, n.phase = withValue m.phase i phase →
      n.stats = withValue m.stats (flight.home i) stats →
      stats.total = (m.stats (flight.home i)).total + 1 → phase.isServed = true →
      (m.phase i).isServed = false → counted n = counted m + 1 ∧ served n = served m + 1 ∧
        generated n + (m.stats (flight.home i)).generated = generated m + stats.generated := by
    intro phase stats hphase hstats htotal hafter hbefore
    have hcount := served_of_phase hphase
    rw [hafter, hbefore, Bool.toNat_true, Bool.toNat_false] at hcount
    have hsum := sum_withValue m.stats (flight.home i) stats Stats.total
    have hmade := sum_withValue m.stats (flight.home i) stats Stats.generated
    rw [← hstats] at hsum hmade
    refine ⟨?_, by omega, hmade⟩
    change ∑ p, (n.stats p).total = ∑ p, (m.stats p).total + 1
    omega
  cases ha with
  | miss phase hf hp =>
      rcases hp with ⟨hp, rfl⟩ | ⟨hp, rfl⟩ | ⟨hp, rfl⟩ <;>
        exact .inl (hsame rfl rfl (by rw [hp]; rfl))
  | hit phase hf hp =>
      have hserved : phase.isServed = true ∧ (m.phase i).isServed = false := by
        rcases hp with ⟨hp, rfl⟩ | ⟨hp | hp, rfl⟩ <;> rw [hp] <;> exact ⟨rfl, rfl⟩
      obtain ⟨hcounted, hcallers, hmade⟩ := hnext rfl rfl (Stats.total_hit _) hserved.1 hserved.2
      exact .inr ⟨hcounted, hcallers, .inl (Nat.add_right_cancel hmade)⟩
  | moved temporary disk hp hw =>
      obtain ⟨hcounted, hcallers, hmade⟩ :=
        hnext rfl rfl (Stats.total_generate _) rfl (by rw [hp]; rfl)
      obtain ⟨-, content, -, hmoved⟩ := Store.moveIntoPlace_eq_ok hw
      refine .inr ⟨hcounted, hcallers, .inr ⟨?_, hm.absent (by rw [hp]; rfl), hmoved.isFile⟩⟩
      change _ = generated m + ((m.stats (flight.home i)).generated + 1) at hmade
      omega
  | leave result hp =>
      have hphase : (flight.leave m i result).phase = withValue m.phase i (.finished result) := rfl
      refine .inl (hsame hphase rfl ?_)
      rw [hp]
      cases result <;> rfl
  | enter hp => exact .inl (hsame rfl rfl (by rw [hp]; rfl))
  | reserved disk hp => exact .inl (hsame rfl rfl (by rw [hp]; rfl))
  | refused disk failure hp => exact .inl (hsame rfl rfl (by rw [hp]; rfl))
  | lock hp => exact .inl (hsame rfl rfl (by rw [hp]; rfl))
  | failed failure hp => exact .inl (hsame rfl rfl (by rw [hp]; rfl))
  | given content hp => exact .inl (hsame rfl rfl (by rw [hp]; rfl))
  | written content disk k temporaries hp => exact .inl (hsame rfl rfl (by rw [hp]; rfl))
  | unwritten content disk k temporaries failure hp =>
      exact .inl (hsame rfl rfl (by rw [hp]; rfl))
  | unmoved temporary disk failure hp => exact .inl (hsame rfl rfl (by rw [hp]; rfl))

theorem Reachable.counted_eq_served (h : flight.Reachable disk m) :
    counted m = Flight.served m := by
  induction h with
  | initial => simp [counted, Flight.served, Moment.initial, Phase.isServed, Stats.total]
  | step hm hstep ih =>
      obtain ⟨i, ha⟩ := hstep.act
      rcases ha.counts hm with ⟨hcounted, hserved, -⟩ | ⟨hcounted, hserved, -⟩ <;> omega

/-- At most one asset is generated, and then it is there. -/
theorem Reachable.generated_le_one (h : flight.Reachable disk m) :
    generated m = 0 ∨ generated m = 1 ∧ m.disk.isFile flight.goal = true := by
  induction h with
  | initial => exact .inl (by simp [generated, Moment.initial])
  | @step m n hm hstep ih =>
      obtain ⟨i, ha⟩ := hstep.act
      have hstays := hm.isFile_leads (.single hstep)
      have hsame : generated n = generated m →
          generated n = 0 ∨ generated n = 1 ∧ n.disk.isFile flight.goal = true := by
        intro heq
        rw [heq]
        exact ih.imp_right fun hone => ⟨hone.1, hstays hone.2⟩
      rcases ha.counts hm with ⟨-, -, heq⟩ | ⟨-, -, heq | ⟨heq, habsent, hthere⟩⟩
      · exact hsame heq
      · exact hsame heq
      · rcases ih with hzero | ⟨-, hf⟩
        · exact .inr ⟨by omega, hthere⟩
        · rw [hf] at habsent
          cases habsent

@[simp] theorem withValue_withValue {α β : Type} [DecidableEq α] (f : α → β) (a : α) (b c : β) :
    withValue (withValue f a b) a c = withValue f a c := by
  funext x
  by_cases hx : x = a
  · rw [hx, withValue_self, withValue_self]
  · rw [withValue_of_ne _ _ hx, withValue_of_ne _ _ hx, withValue_of_ne _ _ hx]

@[simp] theorem goto_goto (m : Moment R callers processes) (i : Fin callers)
    (phase phase' : Phase R) : (m.goto i phase).goto i phase' = m.goto i phase' := by
  simp [Moment.goto]

/-- A caller that looks for an absent asset goes on. -/
theorem look_of_absent (hf : m.disk.isFile flight.goal = false) (missed : Phase R)
    (found : Except (Failure R) String → Phase R) :
    flight.look m i missed found = m.goto i missed := by
  rcases look_cases flight m i missed found with ⟨-, heq⟩ | ⟨hthere, -⟩
  · exact heq
  · rw [hf] at hthere
    cases hthere

theorem step_look (hp : m.phase i = .called) (hf : m.disk.isFile flight.goal = false) :
    flight.Step m (m.goto i .waiting) := by
  have hstep : flight.Step m _ := .look m i hp
  rwa [look_of_absent hf] at hstep

theorem step_lookInside (hp : m.phase i = .admitted) (hf : m.disk.isFile flight.goal = false) :
    flight.Step m (m.goto i .reserving) := by
  have hstep : flight.Step m _ := .lookInside m i hp
  rwa [look_of_absent hf] at hstep

theorem step_reserve (hp : m.phase i = .reserving)
    (hr : flight.prepare R m.disk = (.ok (), disk')) :
    flight.Step m ({ m with disk := disk' }.goto i .queued) := by
  have hstep : flight.Step m _ := .reserve m i hp
  have heq : flight.reserve m i = { m with disk := disk' }.goto i .queued := by
    unfold Flight.reserve
    rw [path_eq_goal, reserve_eq_prepare, hr]
  rwa [heq] at hstep

theorem step_lookLocked (hp : m.phase i = .locked) (hf : m.disk.isFile flight.goal = false) :
    flight.Step m (m.goto i .generating) := by
  have hstep : flight.Step m _ := .lookLocked m i hp
  rwa [look_of_absent hf] at hstep

/-- Nothing but the locks of the processes keeps a caller from generating: the asset is absent, the
lock file is there, and nobody holds the lock on it. -/
structure Open (flight : Flight callers processes) (m : Moment R callers processes) : Prop where
  absent : m.disk.isFile flight.goal = false
  settled : flight.Settled R m.disk
  free : m.holder = none

/-- The phases from which a caller goes on by itself once it is inside. -/
def IsEntered (phase : Phase R) : Prop :=
  phase = .admitted ∨ phase = .reserving ∨ phase = .queued

/-- A caller that is inside comes to its generator. -/
theorem Open.leads_generating (h : flight.Open m) (hi : IsEntered (m.phase i)) :
    flight.Leads m ({ m with holder := some i }.goto i .generating) := by
  have hqueued : flight.Leads m (m.goto i .queued) ∨ m.phase i = .queued := by
    have hreserving : m.phase i = .reserving → flight.Leads m (m.goto i .queued) :=
      fun hp => .single (step_reserve hp h.settled)
    rcases hi with hp | hp | hp
    · have hstep : flight.Step (m.goto i .reserving) ((m.goto i .reserving).goto i .queued) :=
        step_reserve (withValue_self m.phase i .reserving) h.settled
      rw [goto_goto] at hstep
      exact .inl ((Relation.ReflTransGen.single (step_lookInside hp h.absent)).tail hstep)
    · exact .inl (hreserving hp)
    · exact .inr hp
  have hlocked : flight.Leads m ({ m with holder := some i }.goto i .locked) := by
    rcases hqueued with hl | hp
    · have hstep : flight.Step (m.goto i .queued) _ :=
        .lock (m.goto i .queued) i (withValue_self m.phase i .queued) h.free
      have heq : { m.goto i .queued with holder := some i }.goto i .locked
          = { m with holder := some i }.goto i .locked := by
        simp [Moment.goto]
      rw [heq] at hstep
      exact hl.tail hstep
    · exact .single (.lock m i hp h.free)
  have hstep : flight.Step ({ m with holder := some i }.goto i .locked)
      (({ m with holder := some i }.goto i .locked).goto i .generating) := by
    refine step_lookLocked (withValue_self m.phase i .locked) ?_
    rw [Moment.goto_disk]
    exact h.absent
  rw [goto_goto] at hstep
  exact hlocked.tail hstep

/-- The locks that a caller holds are given back. -/
def release (flight : Flight callers processes) (m : Moment R callers processes)
    (i : Fin callers) : Moment R callers processes :=
  { m with inside := withValue m.inside (flight.home i) none, holder := none }

theorem leave_eq (hin : m.inside (flight.home i) = some i)
    (hheld : m.holder = some i ∨ m.holder = none) (result : Except (Failure R) String) :
    flight.leave m i result = (flight.release m i).goto i (.finished result) := by
  unfold Flight.leave release
  rcases hheld with hheld | hheld <;> simp [hin, hheld]

/-- A caller that is given a failure instead of bytes gives back all locks. -/
theorem leads_of_failure (hin : m.inside (flight.home i) = some i) (hheld : m.holder = some i)
    (failure : Failure R) :
    flight.Step (m.goto i (.leaving (.error failure)))
      ((flight.release m i).goto i (.finished (.error failure))) := by
  have hstep : flight.Step (m.goto i (.leaving (.error failure))) _ :=
    .leave (m.goto i (.leaving (.error failure))) i (.error failure) (withValue_self m.phase i _)
  have hleave := leave_eq (m := m.goto i (.leaving (.error failure))) hin (.inl hheld)
    (.error failure)
  have hrelease : (flight.release (m.goto i (.leaving (.error failure))) i).goto i
      (.finished (.error failure)) = (flight.release m i).goto i (.finished (.error failure)) := by
    simp [release, Moment.goto]
  rwa [hleave, hrelease] at hstep

/-- A caller that is inside can fail, and then has given back all locks. -/
theorem Open.leads_finished (h : flight.Open m) (hi : IsEntered (m.phase i))
    (hin : m.inside (flight.home i) = some i) (failure : Failure R) :
    flight.Leads m ((flight.release m i).goto i (.finished (.error failure))) := by
  have hfailed : flight.Step ({ m with holder := some i }.goto i .generating) _ :=
    .receive ({ m with holder := some i }.goto i .generating) i (.error failure)
      (withValue_self m.phase i .generating)
  have hreceive : flight.receive ({ m with holder := some i }.goto i .generating) i
      (.error failure) = { m with holder := some i }.goto i (.leaving (.error failure)) :=
    goto_goto _ _ _ _
  rw [hreceive] at hfailed
  have hleft : flight.Step _ _ := leads_of_failure (m := { m with holder := some i }) hin rfl
    failure
  exact ((h.leads_generating hi).tail hfailed).tail hleft

/-- A caller that waits for the lock of its process while nobody is inside comes to its
generator. -/
theorem Open.leads_from_waiting (h : flight.Open m) (hi : m.phase i = .waiting)
    (hin : m.inside (flight.home i) = none) :
    ∃ n, flight.Leads m n ∧ n.phase i = .generating := by
  have hstep : flight.Step m _ := .enter m i hi hin
  have hopen : flight.Open
      ({ m with inside := withValue m.inside (flight.home i) (some i) }.goto i .admitted) :=
    ⟨h.absent, h.settled, h.free⟩
  have hl := hopen.leads_generating (i := i) (.inl (withValue_self m.phase i .admitted))
  exact ⟨_, (Relation.ReflTransGen.single hstep).trans hl, withValue_self _ _ _⟩

/-- Whoever is inside in front of a waiting caller can go through and let it in. -/
theorem Open.leads_waiting (h : flight.Open m) (hlocks : flight.Locks m)
    (hi : m.phase i = .waiting) (failure : Failure R) :
    ∃ n, flight.Leads m n ∧ n.phase i = .generating := by
  cases hin : m.inside (flight.home i) with
  | none => exact h.leads_from_waiting hi hin
  | some j =>
      obtain ⟨hhome, hinside⟩ := (hlocks.inside j (flight.home i)).mp hin
      have hji : i ≠ j := by
        rintro rfl
        rw [hi] at hinside
        cases hinside
      have hunlocked : (m.phase j).isLocked ≠ true := by
        intro hlocked
        have hheld := hlocks.locked j hlocked
        rw [h.free] at hheld
        cases hheld
      have hpass : ∀ result : Except (Failure R) String,
          flight.Leads m ((flight.release m j).goto j (.finished result)) →
          ∃ n, flight.Leads m n ∧ n.phase i = .generating := by
        intro result hl
        have hopen : flight.Open ((flight.release m j).goto j (.finished result)) :=
          ⟨h.absent, h.settled, rfl⟩
        have hwaiting : ((flight.release m j).goto j (.finished result)).phase i = .waiting :=
          (withValue_of_ne m.phase _ hji).trans hi
        have hfree : ((flight.release m j).goto j (.finished result)).inside (flight.home i)
            = none := by
          rw [← hhome]
          exact withValue_self m.inside (flight.home j) none
        obtain ⟨n, hn, hp⟩ := hopen.leads_from_waiting hwaiting hfree
        exact ⟨n, hl.trans hn, hp⟩
      have hin' : m.inside (flight.home j) = some j := hhome ▸ hin
      cases hp : m.phase j with
      | admitted => exact hpass _ (h.leads_finished (.inl hp) hin' failure)
      | reserving => exact hpass _ (h.leads_finished (.inr (.inl hp)) hin' failure)
      | queued => exact hpass _ (h.leads_finished (.inr (.inr hp)) hin' failure)
      | leaving result =>
          have hstep : flight.Step m _ := .leave m j result hp
          rw [leave_eq hin' (.inr h.free) result] at hstep
          exact hpass result (.single hstep)
      | locked => exact absurd (by rw [hp]; rfl) hunlocked
      | generating => exact absurd (by rw [hp]; rfl) hunlocked
      | writing content => exact absurd (by rw [hp]; rfl) hunlocked
      | moving temporary => exact absurd (by rw [hp]; rfl) hunlocked
      | called =>
          rw [hp] at hinside
          cases hinside
      | waiting =>
          rw [hp] at hinside
          cases hinside
      | finished result =>
          rw [hp] at hinside
          cases hinside

/-- A caller whose generator has failed gives back its locks, and every other caller that has no
result yet can come to its own generator. -/
theorem Reachable.leads_generating (h : flight.Reachable disk m) (hi : m.phase i = .generating)
    {failure : Failure R} (hji : j ≠ i) (hj : (m.phase j).isOver = false) :
    ∃ n, flight.Leads (m.goto i (.leaving (.error failure))) n ∧ n.phase j = .generating := by
  have hheld : m.holder = some i := h.locks.locked i (by rw [hi]; rfl)
  have hin : m.inside (flight.home i) = some i :=
    (h.locks.inside i _).mpr ⟨rfl, by rw [hi]; rfl⟩
  have hfailed : flight.Step m _ := .receive m i (.error failure) hi
  have hleft := leads_of_failure hin hheld failure
  generalize hn : (flight.release m i).goto i (.finished (.error failure)) = n at hleft
  have hreach : flight.Reachable disk n := (h.step hfailed).step hleft
  have hopen : flight.Open n := by
    rw [← hn]
    exact ⟨h.absent (by rw [hi]; rfl), h.settled (by rw [hi]; rfl), rfl⟩
  have hphase : n.phase j = m.phase j := by
    rw [← hn]
    exact withValue_of_ne m.phase _ hji
  have hgo : ∀ k, flight.Leads n k → k.phase j = .generating →
      ∃ k, flight.Leads (m.goto i (.leaving (.error failure))) k ∧ k.phase j = .generating :=
    fun k hl hk => ⟨k, (Relation.ReflTransGen.single hleft).trans hl, hk⟩
  have hunlocked : (m.phase j).isLocked ≠ true := by
    intro hlocked
    have hother := h.locks.locked j hlocked
    rw [hheld] at hother
    exact hji (Option.some.inj hother).symm
  have hentered : IsEntered (n.phase j) →
      ∃ k, flight.Leads (m.goto i (.leaving (.error failure))) k ∧ k.phase j = .generating :=
    fun he => hgo _ (hopen.leads_generating he) (withValue_self _ _ _)
  cases hp : m.phase j with
  | called =>
      rw [hp] at hphase
      have hstep := step_look hphase hopen.absent
      have hopen' : flight.Open (n.goto j .waiting) := ⟨hopen.absent, hopen.settled, hopen.free⟩
      obtain ⟨k, hl, hk⟩ := hopen'.leads_waiting (hreach.step hstep).locks
        (withValue_self n.phase j .waiting) failure
      exact hgo k ((Relation.ReflTransGen.single hstep).trans hl) hk
  | waiting =>
      obtain ⟨k, hl, hk⟩ := hopen.leads_waiting hreach.locks (hphase.trans hp) failure
      exact hgo k hl hk
  | admitted => exact hentered (.inl (hphase.trans hp))
  | reserving => exact hentered (.inr (.inl (hphase.trans hp)))
  | queued => exact hentered (.inr (.inr (hphase.trans hp)))
  | locked => exact absurd (by rw [hp]; rfl) hunlocked
  | generating => exact absurd (by rw [hp]; rfl) hunlocked
  | writing content => exact absurd (by rw [hp]; rfl) hunlocked
  | moving temporary => exact absurd (by rw [hp]; rfl) hunlocked
  | leaving result =>
      rw [hp] at hj
      cases hj
  | finished result =>
      rw [hp] at hj
      cases hj

/-- A caller is between the start of its generator and the release of its lock. -/
def Holding (m : Moment R callers processes) (i : Fin callers) : Prop :=
  (m.phase i).isMaking = true ∨ m.holder = some i ∧ ∃ result, m.phase i = .leaving result

/-- The promises to the callers of one asset. -/
structure Orderly (flight : Flight callers processes) (disk : Disk)
    (m : Moment R callers processes) : Prop where
  /-- At most one caller is between the start of its generator and the release of its lock. -/
  exclusive : ∀ i j, Holding m i → Holding m j → i = j
  /-- Once an asset has been stored, no generator starts any more. -/
  final : 0 < generated m → ∀ n, flight.Leads m n → ∀ i, n.phase i ≠ .generating
  /-- A caller that has finished without failure has the path of the asset, and a file is there that
  holds all the bytes that one generator gave or that stood there from the beginning. -/
  complete : ∀ i path, m.phase i = .finished (.ok path) → path = flight.path i ∧
    ∃ content, m.disk.read path = .ok content ∧
      (disk.get? (Path.place path) = some (.file content) ∨ flight.Gave disk m content)
  /-- If a generator fails, every other caller that has no result yet can still generate. -/
  free : ∀ i outcome failure, m.phase i = .generating →
    (flight.receive m i outcome).phase i = .leaving (.error failure) →
      ∀ j, j ≠ i → (m.phase j).isOver = false →
        ∃ n, flight.Leads (flight.receive m i outcome) n ∧ n.phase j = .generating
  /-- The counts of all processes are those of the callers that have the asset. -/
  balanced : counted m = served m
  /-- The asset is generated at most once. -/
  once : generated m ≤ 1

/-- **Single flight.** Whatever the store, the disk, the callers, their processes and the order in
which they run, the promises to the callers hold at every moment. -/
theorem reachable_orderly (flight : Flight callers processes) (disk : Disk)
    (m : Moment R callers processes) (h : flight.Reachable disk m) : flight.Orderly disk m where
  exclusive := by
    have hheld : ∀ i, Holding m i → m.holder = some i := by
      intro i hi
      rcases hi with hmaking | ⟨hheld, -⟩
      · exact h.locks.locked i (isLocked_of_isMaking hmaking)
      · exact hheld
    intro i j hi hj
    exact Option.some.inj ((hheld i hi).symm.trans (hheld j hj))
  final := by
    intro hpos n hl i hi
    have hthere : m.disk.isFile flight.goal = true := by
      rcases h.generated_le_one with hzero | ⟨-, hthere⟩
      · omega
      · exact hthere
    have habsent := (h.leads hl).absent (i := i) (by rw [hi]; rfl)
    rw [h.isFile_leads hl hthere] at habsent
    cases habsent
  complete := by
    intro i path hi
    obtain ⟨rfl, hf⟩ := h.served (.inr hi)
    obtain ⟨content, hholds⟩ := Disk.isFile_iff.mp hf
    rw [path_eq_goal]
    exact ⟨rfl, content, hholds.read, h.whole.file hholds.2.2 content hholds.2.1⟩
  free := by
    intro i outcome failure hi hreceive j hji hj
    have hgoto : flight.receive m i outcome = m.goto i (.leaving (.error failure)) := by
      cases outcome with
      | error cause =>
          have hcause : Phase.leaving (.error cause) = .leaving (.error failure) := by
            rw [← hreceive]
            exact (withValue_self m.phase i _).symm
          cases hcause
          rfl
      | ok content =>
          cases hc : content.isEmpty with
          | true =>
              rw [receive_of_isEmpty flight m i hc] at hreceive ⊢
              rw [Moment.goto_phase, withValue_self] at hreceive
              cases hreceive
              rfl
          | false =>
              rw [receive_of_ok flight m i hc, Moment.goto_phase, withValue_self] at hreceive
              cases hreceive
    rw [hgoto]
    exact h.leads_generating hi hji hj
  balanced := h.counted_eq_served
  once := by
    rcases h.generated_le_one with hzero | ⟨hone, -⟩ <;> omega

/-- Two callers in two processes. -/
def duo : Flight 2 2 where
  root := "cache"
  extension := "opus"
  key := ⟨.voice, "Hello"⟩
  home i := i
  number p := p

/-- On an empty disk one of two callers comes to its generator. -/
theorem reachable_orderly_duo :
    ∃ m : Moment Float 2 2, duo.Reachable {} m ∧ m.phase 0 = .generating ∧ m.phase 1 = .called ∧
      duo.Orderly {} m := by
  obtain ⟨disk, hr, hf⟩ : ∃ disk, duo.prepare Float {} = (.ok (), disk) ∧
      disk.isFile duo.goal = false := by
    have hok : (duo.prepare Float {}).1.isOk = true := by decide +kernel
    have habsent : (duo.prepare Float {}).2.isFile duo.goal = false := by decide +kernel
    match hr : duo.prepare Float {} with
    | (.ok (), disk) =>
        rw [hr] at habsent
        exact ⟨disk, rfl, habsent⟩
    | (.error failure, disk) =>
        rw [hr] at hok
        cases hok
  have hempty : Disk.isFile {} duo.goal = false := by decide +kernel
  have hcalled : duo.Reachable {} (.initial {} : Moment Float 2 2) := .initial
  have hwaiting := hcalled.step (step_look (i := 0) rfl hempty)
  have hadmitted := hwaiting.step (.enter _ 0 rfl rfl)
  have hreserving := hadmitted.step (step_lookInside (i := 0) rfl hempty)
  have hqueued := hreserving.step (step_reserve (i := 0) rfl hr)
  have hgenerating := hqueued.leads
    (Open.leads_generating (i := 0) ⟨hf, settled_of_prepare hr, rfl⟩ (.inr (.inr rfl)))
  exact ⟨_, hgenerating, rfl, rfl, reachable_orderly duo {} _ hgenerating⟩

end Flight

end Soundstage
