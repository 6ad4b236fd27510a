import Mathlib.Logic.Relation
import Soundstage.Asset.Flight
import Soundstage.Proofs.Asset.Ensure
import Soundstage.Proofs.Asset.Naming

/-!
# What holds at every moment of a flight

`Flight.Act` says what one step does by what the caller meets, so that no invariant opens a step
again. The invariants build on each other: who holds which lock (`Locks`), that the folder and the
lock file are made once and for all (`Settled`), that the asset is absent while it is being made,
and that the file of the asset, once it is there, stays and holds all the bytes of one generator.
-/

namespace Soundstage

variable {R : Type} {callers processes : Nat}

theorem withValue_self {α β : Type} [DecidableEq α] (f : α → β) (a : α) (b : β) :
    withValue f a b a = b := if_pos rfl

theorem withValue_of_ne {α β : Type} [DecidableEq α] (f : α → β) {a x : α} (b : β) (h : x ≠ a) :
    withValue f a b x = f x := if_neg h

namespace Phase

/-- The caller holds the lock of its process. -/
def isInside : Phase R → Bool
  | admitted | reserving | queued | locked | generating | writing _ | moving _ | leaving _ => true
  | called | waiting | finished _ => false

/-- The caller has made sure of the lock file and waits for it or holds it. -/
def isReserved : Phase R → Bool
  | queued | locked | generating | writing _ | moving _ => true
  | called | waiting | admitted | reserving | leaving _ | finished _ => false

/-- The caller holds the lock on the lock file and has no result yet. -/
def isLocked : Phase R → Bool
  | locked | generating | writing _ | moving _ => true
  | called | waiting | admitted | reserving | queued | leaving _ | finished _ => false

/-- The caller makes the asset. -/
def isMaking : Phase R → Bool
  | generating | writing _ | moving _ => true
  | called | waiting | admitted | reserving | queued | locked | leaving _ | finished _ => false

/-- The caller has the asset. -/
def isServed : Phase R → Bool
  | leaving (.ok _) | finished (.ok _) => true
  | _ => false

/-- The caller has its result. -/
def isOver : Phase R → Bool
  | leaving _ | finished _ => true
  | _ => false

end Phase

namespace Moment

variable (m : Moment R callers processes) (i : Fin callers) (phase : Phase R)

@[simp] theorem goto_disk : (m.goto i phase).disk = m.disk := rfl

@[simp] theorem goto_inside : (m.goto i phase).inside = m.inside := rfl

@[simp] theorem goto_holder : (m.goto i phase).holder = m.holder := rfl

@[simp] theorem goto_stats : (m.goto i phase).stats = m.stats := rfl

@[simp] theorem goto_phase : (m.goto i phase).phase = withValue m.phase i phase := rfl

end Moment

namespace Flight

variable {flight : Flight callers processes} {disk disk' : Disk}
  {m n : Moment R callers processes} {i j : Fin callers}

/-- The path of the asset, which is the same for all callers. -/
def goal (flight : Flight callers processes) : String :=
  Store.pathFor ⟨flight.root, flight.extension, 0⟩ flight.key

@[simp] theorem path_eq_goal (flight : Flight callers processes) (i : Fin callers) :
    flight.path i = flight.goal := by
  unfold path goal Store.pathFor
  rfl

/-- Making the folder and the lock file is the same for all callers. -/
def prepare (R : Type) (flight : Flight callers processes) (disk : Disk) :
    Except (Failure R) Unit × Disk :=
  Store.reserve ⟨flight.root, flight.extension, 0⟩ flight.goal disk

theorem reserve_eq_prepare (flight : Flight callers processes) (i : Fin callers) (disk : Disk) :
    (flight.store i).reserve flight.goal disk = flight.prepare R disk := by
  unfold prepare
  exact Store.reserve_congr rfl

/-- What one step of a caller does, by what the caller meets. -/
inductive Act (flight : Flight callers processes) (m : Moment R callers processes)
    (i : Fin callers) : Moment R callers processes → Prop
  /-- The caller looks for the asset, which is absent. -/
  | miss (phase : Phase R) (hf : m.disk.isFile flight.goal = false)
      (hp : m.phase i = .called ∧ phase = .waiting ∨ m.phase i = .admitted ∧ phase = .reserving ∨
        m.phase i = .locked ∧ phase = .generating) :
      Act flight m i (m.goto i phase)
  /-- The caller looks for the asset, which is there. -/
  | hit (phase : Phase R) (hf : m.disk.isFile flight.goal = true)
      (hp : m.phase i = .called ∧ phase = .finished (.ok flight.goal) ∨
        (m.phase i = .admitted ∨ m.phase i = .locked) ∧ phase = .leaving (.ok flight.goal)) :
      Act flight m i ({ m with
        stats := withValue m.stats (flight.home i) (m.stats (flight.home i)).hit }.goto i phase)
  | enter (hp : m.phase i = .waiting) (hi : m.inside (flight.home i) = none) :
      Act flight m i
        ({ m with inside := withValue m.inside (flight.home i) (some i) }.goto i .admitted)
  | reserved (disk : Disk) (hp : m.phase i = .reserving)
      (hr : flight.prepare R m.disk = (.ok (), disk)) :
      Act flight m i ({ m with disk := disk }.goto i .queued)
  | refused (disk : Disk) (failure : Failure R) (hp : m.phase i = .reserving)
      (hr : flight.prepare R m.disk = (.error failure, disk)) :
      Act flight m i ({ m with disk := disk }.goto i (.leaving (.error failure)))
  | lock (hp : m.phase i = .queued) (hh : m.holder = none) :
      Act flight m i ({ m with holder := some i }.goto i .locked)
  /-- The generator fails or gives nothing. -/
  | failed (failure : Failure R) (hp : m.phase i = .generating) :
      Act flight m i (m.goto i (.leaving (.error failure)))
  /-- The generator gives bytes. -/
  | given (content : ByteArray) (hp : m.phase i = .generating) (hc : content.isEmpty = false) :
      Act flight m i (m.goto i (.writing content))
  | written (content : ByteArray) (disk : Disk) (k : Nat) (temporaries : Fin processes → Nat)
      (hp : m.phase i = .writing content)
      (hw : Store.writeTemporary ((flight.store i).temporaryPath flight.goal k) content m.disk
        = ((.ok (), disk) : Except (Failure R) Unit × Disk)) :
      Act flight m i ({ m with disk := disk, temporaries := temporaries }.goto i
        (.moving ((flight.store i).temporaryPath flight.goal k)))
  | unwritten (content : ByteArray) (disk : Disk) (k : Nat) (temporaries : Fin processes → Nat)
      (failure : Failure R) (hp : m.phase i = .writing content)
      (hw : Store.writeTemporary ((flight.store i).temporaryPath flight.goal k) content m.disk
        = (.error failure, disk)) :
      Act flight m i ({ m with disk := disk, temporaries := temporaries }.goto i
        (.leaving (.error failure)))
  | moved (temporary : String) (disk : Disk) (hp : m.phase i = .moving temporary)
      (hw : Store.moveIntoPlace temporary flight.goal m.disk
        = ((.ok (), disk) : Except (Failure R) Unit × Disk)) :
      Act flight m i ({ m with
        disk := disk
        stats := withValue m.stats (flight.home i) (m.stats (flight.home i)).generate }.goto i
          (.leaving (.ok flight.goal)))
  | unmoved (temporary : String) (disk : Disk) (failure : Failure R)
      (hp : m.phase i = .moving temporary)
      (hw : Store.moveIntoPlace temporary flight.goal m.disk = (.error failure, disk)) :
      Act flight m i ({ m with disk := disk }.goto i (.leaving (.error failure)))
  | leave (result : Except (Failure R) String) (hp : m.phase i = .leaving result) :
      Act flight m i (flight.leave m i result)

theorem look_cases (flight : Flight callers processes) (m : Moment R callers processes)
    (i : Fin callers) (missed : Phase R) (found : Except (Failure R) String → Phase R) :
    m.disk.isFile flight.goal = false ∧ flight.look m i missed found = m.goto i missed ∨
      m.disk.isFile flight.goal = true ∧ flight.look m i missed found = { m with
        stats := withValue m.stats (flight.home i) (m.stats (flight.home i)).hit }.goto i
          (found (.ok flight.goal)) := by
  unfold look
  rw [path_eq_goal]
  cases hf : m.disk.isFile flight.goal with
  | true => exact .inr ⟨rfl, by simp⟩
  | false => exact .inl ⟨rfl, by simp⟩

/-- Bytes that a generator gives are written next. -/
theorem receive_of_ok (flight : Flight callers processes) (m : Moment R callers processes)
    (i : Fin callers) {content : ByteArray} (hc : content.isEmpty = false) :
    flight.receive m i (.ok content) = m.goto i (.writing content) := by
  unfold receive
  simp only [Store.checkContent_eq_ok_iff.mpr hc]

/-- A generator that gives nothing has failed. -/
theorem receive_of_isEmpty (flight : Flight callers processes) (m : Moment R callers processes)
    (i : Fin callers) {content : ByteArray} (hc : content.isEmpty = true) :
    flight.receive m i (.ok content) = m.goto i
      (.leaving (.error (.emptyAsset flight.key.role.name flight.key.text))) := by
  unfold receive Store.checkContent
  simp only [hc, if_true]

/-- Every step is an act of one caller. -/
theorem Step.act (h : flight.Step m n) : ∃ i, flight.Act m i n := by
  cases h with
  | look i hp =>
      refine ⟨i, ?_⟩
      rcases look_cases flight m i .waiting .finished with ⟨hf, heq⟩ | ⟨hf, heq⟩ <;> rw [heq]
      · exact .miss _ hf (.inl ⟨hp, rfl⟩)
      · exact .hit _ hf (.inl ⟨hp, rfl⟩)
  | enter i hp hi => exact ⟨i, .enter hp hi⟩
  | lookInside i hp =>
      refine ⟨i, ?_⟩
      rcases look_cases flight m i .reserving .leaving with ⟨hf, heq⟩ | ⟨hf, heq⟩ <;> rw [heq]
      · exact .miss _ hf (.inr (.inl ⟨hp, rfl⟩))
      · exact .hit _ hf (.inr ⟨.inl hp, rfl⟩)
  | reserve i hp =>
      refine ⟨i, ?_⟩
      unfold Flight.reserve
      rw [path_eq_goal, reserve_eq_prepare]
      match hr : flight.prepare R m.disk with
      | (.ok (), disk) => exact .reserved disk hp hr
      | (.error failure, disk) => exact .refused disk failure hp hr
  | lock i hp hh => exact ⟨i, .lock hp hh⟩
  | lookLocked i hp =>
      refine ⟨i, ?_⟩
      rcases look_cases flight m i .generating .leaving with ⟨hf, heq⟩ | ⟨hf, heq⟩ <;> rw [heq]
      · exact .miss _ hf (.inr (.inr ⟨hp, rfl⟩))
      · exact .hit _ hf (.inr ⟨.inr hp, rfl⟩)
  | receive i outcome hp =>
      refine ⟨i, ?_⟩
      cases outcome with
      | error failure => exact .failed failure hp
      | ok content =>
          cases hc : content.isEmpty with
          | true =>
              rw [receive_of_isEmpty flight m i hc]
              exact .failed _ hp
          | false =>
              rw [receive_of_ok flight m i hc]
              exact .given content hp hc
  | write i content hp =>
      refine ⟨i, ?_⟩
      unfold Flight.write
      rw [path_eq_goal]
      simp only
      match hw : (Store.writeTemporary ((flight.store i).temporaryPath flight.goal
          (m.temporaries (flight.home i))) content m.disk : Except (Failure R) Unit × Disk) with
      | (.ok (), disk) =>
          simp only
          exact .written content disk _ _ hp hw
      | (.error failure, disk) =>
          simp only
          exact .unwritten content disk _ _ failure hp hw
  | move i temporary hp =>
      refine ⟨i, ?_⟩
      unfold Flight.move
      rw [path_eq_goal]
      match hw : (Store.moveIntoPlace temporary flight.goal m.disk :
          Except (Failure R) Unit × Disk) with
      | (.ok (), disk) => exact .moved temporary disk hp hw
      | (.error failure, disk) => exact .unmoved temporary disk failure hp hw
  | leave i result hp => exact ⟨i, .leave result hp⟩

/-- A step of one caller leaves the phases of the others as they are. -/
theorem Act.phase_of_ne (h : flight.Act m i n) (hne : j ≠ i) : n.phase j = m.phase j := by
  cases h with
  | leave => exact withValue_of_ne _ _ hne
  | _ => exact withValue_of_ne _ _ hne

/-- Who holds which lock. -/
structure Locks (flight : Flight callers processes) (m : Moment R callers processes) : Prop where
  /-- The lock of a process is held by the caller of the process that is inside. -/
  inside : ∀ i p, m.inside p = some i ↔ flight.home i = p ∧ (m.phase i).isInside = true
  /-- Who makes the asset holds the lock on the lock file. -/
  locked : ∀ i, (m.phase i).isLocked = true → m.holder = some i
  /-- Who holds the lock on the lock file works or is about to give it back. -/
  holder : ∀ i, m.holder = some i →
    (m.phase i).isLocked = true ∨ ∃ result, m.phase i = .leaving result

theorem Locks.initial (flight : Flight callers processes) (disk : Disk) :
    flight.Locks (.initial disk : Moment R callers processes) where
  inside := by simp [Moment.initial, Phase.isInside]
  locked := by simp [Moment.initial, Phase.isLocked]
  holder := by simp [Moment.initial]

/-- Locks stay as they are in a step that takes none and gives none back. -/
theorem Locks.pass (h : flight.Locks m) {phase : Phase R} (hn : n.phase = withValue m.phase i phase)
    (hinside : n.inside = m.inside) (hholder : n.holder = m.holder)
    (hin : phase.isInside = (m.phase i).isInside)
    (hlocked : phase.isLocked = true → (m.phase i).isLocked = true)
    (hheld : (m.phase i).isLocked = true ∨ (∃ result, m.phase i = .leaving result) →
      phase.isLocked = true ∨ ∃ result, phase = .leaving result) : flight.Locks n where
  inside := by
    intro j p
    rw [hinside, h.inside j p, hn]
    by_cases hj : j = i
    · subst hj
      rw [withValue_self, hin]
    · rw [withValue_of_ne _ _ hj]
  locked := by
    intro j hj
    rw [hn] at hj
    rw [hholder]
    by_cases hji : j = i
    · subst hji
      rw [withValue_self] at hj
      exact h.locked j (hlocked hj)
    · rw [withValue_of_ne _ _ hji] at hj
      exact h.locked j hj
  holder := by
    intro j hj
    rw [hholder] at hj
    rw [hn]
    have hold := h.holder j hj
    by_cases hji : j = i
    · subst hji
      rw [withValue_self]
      exact hheld hold
    · rw [withValue_of_ne _ _ hji]
      exact hold

/-- Whoever goes into a process where nobody is, or goes out of it, takes its lock along or gives it
back. -/
theorem Locks.withValue_inside (h : flight.Locks m) (phase : Phase R)
    (hin : m.inside (flight.home i) = none ∨ m.inside (flight.home i) = some i)
    (j : Fin callers) (p : Fin processes) :
    withValue m.inside (flight.home i) (if phase.isInside then some i else none) p = some j ↔
      flight.home j = p ∧ (withValue m.phase i phase j).isInside = true := by
  by_cases hj : j = i
  · subst hj
    rw [withValue_self]
    by_cases hp : p = flight.home j
    · subst hp
      rw [withValue_self]
      cases phase.isInside <;> simp
    · rw [withValue_of_ne _ _ hp, h.inside]
      simp [Ne.symm hp]
  · rw [withValue_of_ne _ _ hj, ← h.inside]
    by_cases hp : p = flight.home i
    · subst hp
      rw [withValue_self]
      rcases hin with hin | hin <;> rw [hin] <;> cases phase.isInside <;> simp [Ne.symm hj]
    · rw [withValue_of_ne _ _ hp]

theorem Locks.enter (h : flight.Locks m) (hp : m.phase i = .waiting)
    (hi : m.inside (flight.home i) = none) : flight.Locks
      ({ m with inside := withValue m.inside (flight.home i) (some i) }.goto i .admitted) where
  inside := by
    intro j p
    exact h.withValue_inside .admitted (.inl hi) j p
  locked := by
    intro j hj
    by_cases hji : j = i
    · subst hji
      simp [withValue_self, Phase.isLocked] at hj
    · rw [Moment.goto_phase, withValue_of_ne _ _ hji] at hj
      exact h.locked j hj
  holder := by
    intro j hj
    have hold := h.holder j hj
    by_cases hji : j = i
    · subst hji
      simp [hp, Phase.isLocked] at hold
    · rw [Moment.goto_phase, withValue_of_ne _ _ hji]
      exact hold

theorem Locks.lock (h : flight.Locks m) (hp : m.phase i = .queued) (hh : m.holder = none) :
    flight.Locks ({ m with holder := some i }.goto i .locked) where
  inside := by
    intro j p
    change m.inside p = some j ↔
      flight.home j = p ∧ (withValue m.phase i .locked j).isInside = true
    rw [h.inside]
    by_cases hj : j = i
    · subst hj
      simp [withValue_self, hp, Phase.isInside]
    · rw [withValue_of_ne _ _ hj]
  locked := by
    intro j hj
    by_cases hji : j = i
    · rw [hji]
      rfl
    · rw [Moment.goto_phase, withValue_of_ne _ _ hji] at hj
      have hheld := h.locked j hj
      rw [hh] at hheld
      cases hheld
  holder := by
    intro j hj
    obtain rfl : i = j := Option.some.inj hj
    rw [Moment.goto_phase, withValue_self]
    exact .inl rfl

theorem Locks.leave (h : flight.Locks m) {result : Except (Failure R) String}
    (hp : m.phase i = .leaving result) : flight.Locks (flight.leave m i result) where
  inside := by
    intro j p
    have hheld : m.inside (flight.home i) = some i :=
      (h.inside i (flight.home i)).mpr ⟨rfl, by rw [hp]; rfl⟩
    have hin : (flight.leave m i result).inside = withValue m.inside (flight.home i) none :=
      if_pos hheld
    rw [hin]
    exact h.withValue_inside (.finished result) (.inr hheld) j p
  locked := by
    intro j hj
    change (withValue m.phase i (.finished result) j).isLocked = true at hj
    by_cases hji : j = i
    · subst hji
      rw [withValue_self] at hj
      cases hj
    · rw [withValue_of_ne _ _ hji] at hj
      have hj' := h.locked j hj
      change (if m.holder = some i then none else m.holder) = some j
      rw [if_neg (by rw [hj']; simp [hji]), hj']
  holder := by
    intro j hj
    change (if m.holder = some i then none else m.holder) = some j at hj
    split at hj
    · cases hj
    · next hne =>
        have hji : j ≠ i := by
          rintro rfl
          exact hne hj
        change (withValue m.phase i (.finished result) j).isLocked = true ∨
          ∃ r, withValue m.phase i (.finished result) j = .leaving r
        rw [withValue_of_ne _ _ hji]
        exact h.holder j hj

/-- No step upsets the locks. -/
theorem Locks.act (h : flight.Locks m) (ha : flight.Act m i n) : flight.Locks n := by
  cases ha with
  | miss phase hf hp =>
      rcases hp with ⟨hp, rfl⟩ | ⟨hp, rfl⟩ | ⟨hp, rfl⟩ <;>
        exact h.pass rfl rfl rfl (by rw [hp]; rfl) (by simp [hp, Phase.isLocked])
          (by simp [hp, Phase.isLocked])
  | hit phase hf hp =>
      rcases hp with ⟨hp, rfl⟩ | ⟨hp | hp, rfl⟩ <;>
        exact h.pass rfl rfl rfl (by rw [hp]; rfl) (by simp [hp, Phase.isLocked])
          (by simp [hp, Phase.isLocked])
  | enter hp hi => exact h.enter hp hi
  | reserved disk hp hr =>
      exact h.pass rfl rfl rfl (by rw [hp]; rfl) (by simp [Phase.isLocked])
        (by simp [hp, Phase.isLocked])
  | refused disk failure hp hr =>
      exact h.pass rfl rfl rfl (by rw [hp]; rfl) (by simp [Phase.isLocked])
        (by simp)
  | lock hp hh => exact h.lock hp hh
  | failed failure hp =>
      exact h.pass rfl rfl rfl (by rw [hp]; rfl) (by simp [Phase.isLocked])
        (by simp)
  | given content hp hc =>
      exact h.pass rfl rfl rfl (by rw [hp]; rfl) (by simp [hp, Phase.isLocked])
        (by simp [Phase.isLocked])
  | written content disk k temporaries hp hw =>
      exact h.pass rfl rfl rfl (by rw [hp]; rfl) (by simp [hp, Phase.isLocked])
        (by simp [Phase.isLocked])
  | unwritten content disk k temporaries failure hp hw =>
      exact h.pass rfl rfl rfl (by rw [hp]; rfl) (by simp [Phase.isLocked])
        (by simp)
  | moved temporary disk hp hw =>
      exact h.pass rfl rfl rfl (by rw [hp]; rfl) (by simp [Phase.isLocked])
        (by simp)
  | unmoved temporary disk failure hp hw =>
      exact h.pass rfl rfl rfl (by rw [hp]; rfl) (by simp [Phase.isLocked])
        (by simp)
  | leave result hp => exact h.leave hp

theorem Reachable.locks (h : flight.Reachable disk m) : flight.Locks m := by
  induction h with
  | initial => exact .initial flight disk
  | step _ hstep ih =>
      obtain ⟨i, ha⟩ := hstep.act
      exact ih.act ha

/-- The temporary files of a caller. -/
def temporary (flight : Flight callers processes) (i : Fin callers) (k : Nat) : String :=
  (flight.store i).temporaryPath flight.goal k

theorem place_lock_ne_temporary (flight : Flight callers processes) (i : Fin callers) (k : Nat) :
    Path.place (Store.lockPath flight.goal) ≠ Path.place (flight.temporary i k) :=
  Store.place_lockPath_ne_temporaryPath flight.goal k

theorem place_goal_ne_lock (hopen : Path.endsOpen (Path.parts flight.goal) = false) :
    Path.place flight.goal ≠ Path.place (Store.lockPath flight.goal) :=
  Path.place_ne_sibling hopen Store.isPart_lockSuffix (by decide)

theorem place_goal_ne_temporary (hopen : Path.endsOpen (Path.parts flight.goal) = false)
    (i : Fin callers) (k : Nat) : Path.place flight.goal ≠ Path.place (flight.temporary i k) :=
  Path.place_ne_sibling hopen (Store.isPart_temporarySuffix _ _)
    (Store.temporarySuffix_ne_empty _ _)

/-- Who writes bytes has just been given them. -/
theorem Act.of_writing (ha : flight.Act m i n) {content : ByteArray}
    (hi : n.phase i = .writing content) :
    m.phase i = .generating ∧ content.isEmpty = false ∧ n = m.goto i (.writing content) := by
  cases ha with
  | miss phase hf hp =>
      rw [Moment.goto_phase, withValue_self] at hi
      rcases hp with ⟨-, rfl⟩ | ⟨-, rfl⟩ | ⟨-, rfl⟩ <;> cases hi
  | hit phase hf hp =>
      rw [Moment.goto_phase, withValue_self] at hi
      rcases hp with ⟨-, rfl⟩ | ⟨-, rfl⟩ <;> cases hi
  | given bytes hp hc =>
      rw [Moment.goto_phase, withValue_self] at hi
      cases hi
      exact ⟨hp, hc, rfl⟩
  | leave result hp =>
      change withValue m.phase i (.finished result) i = _ at hi
      rw [withValue_self] at hi
      cases hi
  | _ =>
      rw [Moment.goto_phase, withValue_self] at hi
      cases hi

/-- Who moves a file has just written it. -/
theorem Act.of_moving (ha : flight.Act m i n) {temporary : String}
    (hi : n.phase i = .moving temporary) :
    ∃ k content, temporary = flight.temporary i k ∧ m.phase i = .writing content ∧
      n.disk.Holds temporary content := by
  cases ha with
  | miss phase hf hp =>
      rw [Moment.goto_phase, withValue_self] at hi
      rcases hp with ⟨-, rfl⟩ | ⟨-, rfl⟩ | ⟨-, rfl⟩ <;> cases hi
  | hit phase hf hp =>
      rw [Moment.goto_phase, withValue_self] at hi
      rcases hp with ⟨-, rfl⟩ | ⟨-, rfl⟩ <;> cases hi
  | written content disk k temporaries hp hw =>
      rw [Moment.goto_phase, withValue_self] at hi
      cases hi
      exact ⟨k, content, rfl, hp, (Store.writeTemporary_eq_ok hw).2⟩
  | leave result hp =>
      change withValue m.phase i (.finished result) i = _ at hi
      rw [withValue_self] at hi
      cases hi
  | _ =>
      rw [Moment.goto_phase, withValue_self] at hi
      cases hi

/-- Who is about to move a file moves a temporary file of its own. -/
def Named (flight : Flight callers processes) (m : Moment R callers processes) : Prop :=
  ∀ i temporary, m.phase i = .moving temporary → ∃ k, temporary = flight.temporary i k

theorem Named.act (h : flight.Named m) (ha : flight.Act m i n) : flight.Named n := by
  intro j temporary hj
  by_cases hji : j = i
  · subst hji
    obtain ⟨k, content, hk, -⟩ := ha.of_moving hj
    exact ⟨k, hk⟩
  · rw [ha.phase_of_ne hji] at hj
    exact h j temporary hj

theorem Reachable.named (h : flight.Reachable disk m) : flight.Named m := by
  induction h with
  | initial =>
      intro i temporary hi
      cases hi
  | step _ hstep ih =>
      obtain ⟨i, ha⟩ := hstep.act
      exact ih.act ha

/-- What one step does to the disk: nothing, or it makes the folder and the lock file, or it works
on a temporary file, or it moves one to the place of the asset. -/
theorem Act.onDisk (ha : flight.Act m i n) (hnamed : flight.Named m) :
    n.disk = m.disk ∨
    (m.phase i = .reserving ∧ ∃ result, flight.prepare R m.disk = (result, n.disk)) ∨
    ((m.phase i).isMaking = true ∧
      ∃ k, m.disk.Writes n.disk [Path.place (flight.temporary i k)]) ∨
    ∃ k content, m.phase i = .moving (flight.temporary i k) ∧
      n.phase i = .leaving (.ok flight.goal) ∧
      m.disk.Writes n.disk [Path.place (flight.temporary i k), Path.place flight.goal] ∧
      m.disk.Holds (flight.temporary i k) content ∧ n.disk.Holds flight.goal content := by
  cases ha with
  | reserved disk hp hr => exact .inr (.inl ⟨hp, _, hr⟩)
  | refused disk failure hp hr => exact .inr (.inl ⟨hp, _, hr⟩)
  | written content disk k temporaries hp hw =>
      exact .inr (.inr (.inl ⟨by rw [hp]; rfl, k, (Store.writeTemporary_eq_ok hw).1⟩))
  | unwritten content disk k temporaries failure hp hw =>
      exact .inr (.inr (.inl ⟨by rw [hp]; rfl, k, Store.writeTemporary_eq_error hw⟩))
  | moved temporary disk hp hw =>
      obtain ⟨k, rfl⟩ := hnamed i temporary hp
      obtain ⟨hwrites, content, hholds, hmoved⟩ := Store.moveIntoPlace_eq_ok hw
      refine .inr (.inr (.inr ⟨k, content, hp, ?_, hwrites, hholds, hmoved⟩))
      rw [Moment.goto_phase, withValue_self]
  | unmoved temporary disk failure hp hw =>
      obtain ⟨k, rfl⟩ := hnamed i temporary hp
      exact .inr (.inr (.inl ⟨by rw [hp]; rfl, k, Store.moveIntoPlace_eq_error hw⟩))
  | leave => exact .inl rfl
  | _ => exact .inl rfl

/-- The folder and the lock file have been made, so that making them again changes nothing. -/
def Settled (R : Type) (flight : Flight callers processes) (disk : Disk) : Prop :=
  flight.prepare R disk = (.ok (), disk)

theorem settled_of_prepare (h : flight.prepare R disk = (.ok (), disk')) :
    flight.Settled R disk' := by
  obtain ⟨content, hlock⟩ := Store.holds_lock_of_reserve h
  exact Store.reserve_again h rfl (.refl disk') hlock

theorem Settled.writes {touched : List Place} (h : flight.Settled R disk)
    (hwrites : disk.Writes disk' touched)
    (hlock : Path.place (Store.lockPath flight.goal) ∉ touched) : flight.Settled R disk' := by
  obtain ⟨content, hholds⟩ := Store.holds_lock_of_reserve h
  exact Store.reserve_again h rfl hwrites.keeps ((hwrites.holds_iff hlock).mpr hholds)

/-- What is made once and for all stays. -/
theorem Settled.act (h : flight.Settled R m.disk) (hnamed : flight.Named m)
    (ha : flight.Act m i n) : flight.Settled R n.disk := by
  rcases ha.onDisk hnamed with hsame | ⟨-, result, hr⟩ | ⟨-, k, hwrites⟩ |
    ⟨k, content, -, -, hwrites, -, hholds⟩
  · rw [hsame]
    exact h
  · rw [Settled, hr] at h
    rw [(Prod.mk.inj h).2, Settled, hr]
    exact h
  · refine h.writes hwrites ?_
    simpa using flight.place_lock_ne_temporary i k
  · refine h.writes hwrites ?_
    have hgoal := place_goal_ne_lock hholds.2.2
    simpa using ⟨flight.place_lock_ne_temporary i k, hgoal.symm⟩

/-- Only making the lock file leads to the phases in which it has been made. -/
theorem Act.isReserved (ha : flight.Act m i n) (hi : (n.phase i).isReserved = true) :
    (m.phase i).isReserved = true ∨ flight.prepare R m.disk = (.ok (), n.disk) := by
  cases ha with
  | miss phase hf hp =>
      rw [Moment.goto_phase, withValue_self] at hi
      rcases hp with ⟨-, rfl⟩ | ⟨-, rfl⟩ | ⟨hp, rfl⟩
      · cases hi
      · cases hi
      · exact .inl (by rw [hp]; rfl)
  | hit phase hf hp =>
      rw [Moment.goto_phase, withValue_self] at hi
      rcases hp with ⟨-, rfl⟩ | ⟨-, rfl⟩ <;> cases hi
  | reserved disk hp hr => exact .inr hr
  | lock hp hh => exact .inl (by rw [hp]; rfl)
  | given content hp hc => exact .inl (by rw [hp]; rfl)
  | written content disk k temporaries hp hw => exact .inl (by rw [hp]; rfl)
  | leave result hp =>
      change (withValue m.phase i (.finished result) i).isReserved = true at hi
      rw [withValue_self] at hi
      cases hi
  | _ =>
      rw [Moment.goto_phase, withValue_self] at hi
      cases hi

/-- Who has made sure of the lock file finds the folder and the lock file made. -/
theorem Reachable.settled (h : flight.Reachable disk m) (hi : (m.phase i).isReserved = true) :
    flight.Settled R m.disk := by
  induction h generalizing i with
  | initial => cases hi
  | step hm hstep ih =>
      obtain ⟨j, ha⟩ := hstep.act
      by_cases hij : i = j
      · subst hij
        rcases ha.isReserved hi with hbefore | hr
        · exact (ih hbefore).act hm.named ha
        · exact settled_of_prepare hr
      · rw [ha.phase_of_ne hij] at hi
        exact (ih hi).act hm.named ha

theorem isLocked_of_isMaking {phase : Phase R} (h : phase.isMaking = true) :
    phase.isLocked = true := by
  cases phase <;> first | rfl | cases h

theorem isReserved_of_isLocked {phase : Phase R} (h : phase.isLocked = true) :
    phase.isReserved = true := by
  cases phase <;> first | rfl | cases h

/-- While one caller holds the lock on the lock file, no other one changes the disk. -/
theorem Act.disk_eq_of_isLocked (ha : flight.Act m i n) (hm : flight.Reachable disk m)
    (hj : (m.phase j).isLocked = true) (hne : j ≠ i) : n.disk = m.disk := by
  have hlocks := hm.locks
  have hother : (m.phase i).isLocked = false := by
    rw [← Bool.not_eq_true]
    intro hi
    have hheld := (hlocks.locked j hj).symm.trans (hlocks.locked i hi)
    exact hne (Option.some.inj hheld)
  rcases ha.onDisk hm.named with hsame | ⟨-, result, hr⟩ | ⟨hi, -⟩ | ⟨k, content, hi, -⟩
  · exact hsame
  · have hsettled := hm.settled (isReserved_of_isLocked hj)
    rw [Settled, hr] at hsettled
    exact (Prod.mk.inj hsettled).2
  · rw [isLocked_of_isMaking hi] at hother
    cases hother
  · rw [hi] at hother
    cases hother

theorem isFile_of_writes_temporary {i : Fin callers} {k : Nat}
    (hwrites : disk.Writes disk' [Path.place (flight.temporary i k)]) :
    disk'.isFile flight.goal = disk.isFile flight.goal := by
  cases hopen : Path.endsOpen (Path.parts flight.goal) with
  | false =>
      refine hwrites.isFile_eq ?_
      simpa using place_goal_ne_temporary hopen i k
  | true =>
      have hno : ∀ d : Disk, d.isFile flight.goal = false := by
        intro d
        rw [← Bool.not_eq_true, Disk.isFile_iff]
        rintro ⟨content, hholds⟩
        rw [hholds.2.2] at hopen
        cases hopen
      rw [hno, hno]

/-- Making starts where the asset has just been looked for in vain. -/
theorem Act.isMaking (ha : flight.Act m i n) (hi : (n.phase i).isMaking = true) :
    (m.phase i).isMaking = true ∨ m.disk.isFile flight.goal = false ∧ n.disk = m.disk := by
  cases ha with
  | miss phase hf hp => exact .inr ⟨hf, rfl⟩
  | hit phase hf hp =>
      rw [Moment.goto_phase, withValue_self] at hi
      rcases hp with ⟨-, rfl⟩ | ⟨-, rfl⟩ <;> cases hi
  | given content hp hc => exact .inl (by rw [hp]; rfl)
  | written content disk k temporaries hp hw => exact .inl (by rw [hp]; rfl)
  | leave result hp =>
      change (withValue m.phase i (.finished result) i).isMaking = true at hi
      rw [withValue_self] at hi
      cases hi
  | _ =>
      rw [Moment.goto_phase, withValue_self] at hi
      cases hi

/-- The asset is absent while it is being made. -/
theorem Reachable.absent (h : flight.Reachable disk m) (hi : (m.phase i).isMaking = true) :
    m.disk.isFile flight.goal = false := by
  induction h generalizing i with
  | initial => cases hi
  | step hm hstep ih =>
      obtain ⟨j, ha⟩ := hstep.act
      by_cases hij : i = j
      · subst hij
        rcases ha.isMaking hi with hbefore | ⟨hf, hsame⟩
        · have hf := ih hbefore
          rcases ha.onDisk hm.named with hsame | ⟨hp, -⟩ | ⟨-, k, hwrites⟩ | ⟨k, content, -, hp, -⟩
          · rw [hsame, hf]
          · rw [hp] at hbefore
            cases hbefore
          · rw [isFile_of_writes_temporary hwrites, hf]
          · rw [hp] at hi
            cases hi
        · rw [hsame, hf]
      · rw [ha.phase_of_ne hij] at hi
        rw [ha.disk_eq_of_isLocked hm (isLocked_of_isMaking hi) hij]
        exact ih hi

/-- One moment comes after another. -/
abbrev Leads (flight : Flight callers processes) :
    Moment R callers processes → Moment R callers processes → Prop :=
  Relation.ReflTransGen flight.Step

theorem Reachable.leads (h : flight.Reachable disk m) (hl : flight.Leads m n) :
    flight.Reachable disk n := by
  induction hl with
  | refl => exact h
  | tail _ hstep ih => exact .step ih hstep

/-- The file of the asset stays as it is once it is there. -/
theorem Reachable.holds_step (h : flight.Reachable disk m) (hstep : flight.Step m n)
    {content : ByteArray} (hholds : m.disk.Holds flight.goal content) :
    n.disk.Holds flight.goal content := by
  obtain ⟨i, ha⟩ := hstep.act
  have hopen := hholds.2.2
  rcases ha.onDisk h.named with hsame | ⟨-, result, hr⟩ | ⟨-, k, hwrites⟩ | ⟨k, other, hp, -⟩
  · rwa [hsame]
  · refine (Store.changes_reserve hr).holds ?_ hholds
    simpa using place_goal_ne_lock hopen
  · refine (hwrites.holds_iff ?_).mpr hholds
    simpa using place_goal_ne_temporary hopen i k
  · have habsent := h.absent (i := i) (by rw [hp]; rfl)
    rw [hholds.isFile] at habsent
    cases habsent

theorem Reachable.holds_leads (h : flight.Reachable disk m) (hl : flight.Leads m n)
    {content : ByteArray} (hholds : m.disk.Holds flight.goal content) :
    n.disk.Holds flight.goal content := by
  induction hl with
  | refl => exact hholds
  | tail hl hstep ih => exact (h.leads hl).holds_step hstep ih

theorem Reachable.isFile_leads (h : flight.Reachable disk m) (hl : flight.Leads m n)
    (hf : m.disk.isFile flight.goal = true) : n.disk.isFile flight.goal = true := by
  obtain ⟨content, hholds⟩ := Disk.isFile_iff.mp hf
  exact (h.holds_leads hl hholds).isFile

/-- Some generator gave these bytes before. -/
def Gave (flight : Flight callers processes) (disk : Disk) (m : Moment R callers processes)
    (content : ByteArray) : Prop :=
  ∃ before i, flight.Reachable disk before ∧ before.phase i = .generating ∧
    content.isEmpty = false ∧ flight.Leads (flight.receive before i (.ok content)) m

theorem Gave.step {content : ByteArray} (h : flight.Gave disk m content)
    (hstep : flight.Step m n) : flight.Gave disk n content := by
  obtain ⟨before, i, hbefore, hp, hc, hl⟩ := h
  exact ⟨before, i, hbefore, hp, hc, hl.tail hstep⟩

/-- What is written and moved, and what stands at the place of the asset, is whole: all the bytes
that some generator gave, or what stood there from the beginning. -/
structure Whole (flight : Flight callers processes) (disk : Disk)
    (m : Moment R callers processes) : Prop where
  writing : ∀ i content, m.phase i = .writing content → flight.Gave disk m content
  moving : ∀ i temporary, m.phase i = .moving temporary →
    ∃ content, flight.Gave disk m content ∧ m.disk.Holds temporary content
  file : Path.endsOpen (Path.parts flight.goal) = false → ∀ content,
    m.disk.get? (Path.place flight.goal) = some (.file content) →
      disk.get? (Path.place flight.goal) = some (.file content) ∨ flight.Gave disk m content

theorem Whole.step (h : flight.Whole disk m) (hm : flight.Reachable disk m)
    (hstep : flight.Step m n) : flight.Whole disk n := by
  obtain ⟨i, ha⟩ := hstep.act
  refine ⟨fun j content hj => ?_, fun j temporary hj => ?_, fun hopen content hg => ?_⟩
  · by_cases hji : j = i
    · subst hji
      obtain ⟨hp, hc, rfl⟩ := ha.of_writing hj
      refine ⟨m, j, hm, hp, hc, ?_⟩
      rw [receive_of_ok flight m j hc]
    · rw [ha.phase_of_ne hji] at hj
      exact (h.writing j content hj).step hstep
  · by_cases hji : j = i
    · subst hji
      obtain ⟨k, content, -, hp, hholds⟩ := ha.of_moving hj
      exact ⟨content, (h.writing j content hp).step hstep, hholds⟩
    · rw [ha.phase_of_ne hji] at hj
      obtain ⟨content, hgave, hholds⟩ := h.moving j temporary hj
      refine ⟨content, hgave.step hstep, ?_⟩
      rwa [ha.disk_eq_of_isLocked hm (by rw [hj]; rfl) hji]
  · have hold : m.disk.get? (Path.place flight.goal) = some (.file content) →
        disk.get? (Path.place flight.goal) = some (.file content) ∨
          flight.Gave disk n content :=
      fun hg => (h.file hopen content hg).imp_right fun hgave => hgave.step hstep
    rcases ha.onDisk hm.named with hsame | ⟨-, result, hr⟩ | ⟨-, k, hwrites⟩ |
      ⟨k, moved, hp, -, -, hholds, hmoved⟩
    · rw [hsame] at hg
      exact hold hg
    · refine hold (((Store.changes_reserve hr).get?_eq_file_iff ?_).mp hg)
      simpa using place_goal_ne_lock hopen
    · rw [hwrites.elsewhere _ (by simpa using place_goal_ne_temporary hopen i k)] at hg
      exact hold hg
    · obtain ⟨given, hgave, hgiven⟩ := h.moving i _ hp
      have hcontent := hmoved.2.1.symm.trans hg
      cases hcontent
      obtain rfl := hgiven.eq hholds
      exact .inr (hgave.step hstep)

theorem Reachable.whole (h : flight.Reachable disk m) : flight.Whole disk m := by
  induction h with
  | initial =>
      refine ⟨fun i content hi => ?_, fun i temporary hi => ?_, fun _ content hg => .inl hg⟩
      · cases hi
      · cases hi
  | step hm hstep ih => exact ih.step hm hstep

end Flight

end Soundstage
