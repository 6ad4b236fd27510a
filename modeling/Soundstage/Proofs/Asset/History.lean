import Soundstage.Asset.History
import Soundstage.Proofs.Asset.Finding

/-!
# The law of a store that makes what is absent

A history of calls is watched event by event: what each call met on the disk, what it answered,
whether its generator was invoked, and what it left behind. `StoreCall.Lawful` is the law that all
events of a history obey. The proof needs one invariant, that the files of assets are found by their
paths.
-/

namespace Soundstage

variable {R σ : Type}

/-- What happened in one call. -/
structure StoreEvent (R σ : Type) where
  call : StoreCall R σ
  before : Shelf
  answer : StoreAnswer R
  /-- What the generator answered, if it was invoked. -/
  generated : Option (Except (Failure R) ByteArray)
  after : Shelf

namespace StoreCall

/-- A generator that notes its answer beside its state. -/
def noting (generate : σ → Except (Failure R) ByteArray × σ) :
    σ × Option (Except (Failure R) ByteArray) →
      Except (Failure R) ByteArray × σ × Option (Except (Failure R) ByteArray) :=
  fun (state, _) => ((generate state).1, (generate state).2, some (generate state).1)

/-- A call whose generator notes its answer. -/
def noted : StoreCall R σ → StoreCall R (σ × Option (Except (Failure R) ByteArray))
  | ensure key generate => ensure key (noting generate)
  | lookup key => lookup key
  | pathFor key => pathFor key
  | reopen => reopen

/-- The asset that a call is about. -/
def key? : StoreCall R σ → Option AssetKey
  | ensure key _ | lookup key | pathFor key => some key
  | reopen => none

/-- What happens in one call, and the state it leaves to the generators. -/
def happen (store : Store) (shelf : Shelf) (state : σ) (call : StoreCall R σ) :
    StoreEvent R σ × σ :=
  let (answer, after, state, generated) := call.noted.run store shelf (state, none)
  (⟨call, shelf, answer, generated, after⟩, state)

/-- What happens in a history. -/
def events (store : Store) (shelf : Shelf) (state : σ) :
    List (StoreCall R σ) → List (StoreEvent R σ)
  | [] => []
  | call :: rest =>
    let next := call.happen store shelf state
    next.1 :: events store next.1.after next.2 rest

end StoreCall

/-- The answers that count since the last reopening, behind `n` earlier ones. -/
def StoreAnswer.countFrom (n : Nat) : List (StoreAnswer R) → Nat
  | [] => n
  | reopened :: rest => countFrom 0 rest
  | ensured (.ok _) :: rest => countFrom (n + 1) rest
  | _ :: rest => countFrom n rest

namespace Store

/-- The folder and the lock file of an asset can be made unless the asset is there. -/
def CanReserve (R : Type) (store : Store) (key : AssetKey) (disk : Disk) : Prop :=
  disk.isFile (store.pathFor key) = false →
    (store.reserve (store.pathFor key) disk : Except (Failure R) Unit × Disk).1.isOk = true

instance (store : Store) (key : AssetKey) (disk : Disk) : Decidable (store.CanReserve R key disk) :=
  inferInstanceAs (Decidable (_ → _))

end Store

/-- The law of a store that makes what is absent, for the events of a history that starts on a
shelf. -/
structure Lawful (store : Store) (keys : List AssetKey) (start : Shelf)
    (events : List (StoreEvent R σ)) : Prop where
  /-- A generator is invoked exactly if no file is at the path of its asset. -/
  generates : ∀ e ∈ events, ∀ key generate, e.call = .ensure key generate →
    (e.generated.isSome = true ↔ e.before.disk.isFile (store.pathFor key) = false)
  /-- The answer is the path of the asset unless it is a failure. -/
  answers : ∀ e ∈ events, ∀ key generate path, e.call = .ensure key generate →
    e.answer = .ensured (.ok path) → path = store.pathFor key
  /-- What was generated is kept, byte by byte, and is not generated again. -/
  keeps : ∀ past e future, events = past ++ e :: future → ∀ key generate path,
    e.call = .ensure key generate → e.generated.isSome = true → e.answer = .ensured (.ok path) →
      ∃ content, e.generated = some (.ok content) ∧ content.isEmpty = false ∧
        e.after.disk.read (store.pathFor key) = .ok content ∧
        ∀ later ∈ future, later.after.disk.read (store.pathFor key) = .ok content ∧
          ∀ generate', later.call = .ensure key generate' → later.generated = none
  /-- A call that is not about an asset leaves the file of the asset as it was. -/
  apart : ∀ e ∈ events, ∀ key ∈ keys, e.call.key? ≠ some key → ∀ content,
    e.after.disk.read (store.pathFor key) = .ok content ↔
      e.before.disk.read (store.pathFor key) = .ok content
  /-- An asset is looked up with success exactly if its generator would not be invoked. -/
  looks : ∀ e ∈ events, ∀ key, e.call = .lookup key →
    ∀ (generate : σ → Except (Failure R) ByteArray × σ) (state : σ), ∃ found,
      e.answer = .found found ∧ (∀ path ∈ found, path = store.pathFor key) ∧
        (found.isSome = true ↔
          ((StoreCall.ensure key generate).happen store e.before state).1.generated = none)
  /-- The counts are those of the answers since the last reopening. -/
  counts : ∀ past e future, events = past ++ e :: future →
    e.after.stats.total
      = StoreAnswer.countFrom start.stats.total ((past ++ [e]).map (·.answer))

namespace StoreCall

variable {store : Store} {key other : AssetKey} {keys : List AssetKey} {shelf : Shelf} {state : σ}
  {call : StoreCall R σ} {calls : List (StoreCall R σ)}
  {generate : σ → Except (Failure R) ByteArray × σ}

/-- Watching a call changes nothing: its answer and what it leaves behind are those of the call. -/
theorem happen_eq_run (store : Store) (shelf : Shelf) (state : σ) (call : StoreCall R σ) :
    ((call.happen store shelf state).1.answer, (call.happen store shelf state).1.after,
      (call.happen store shelf state).2) = call.run store shelf state := by
  cases call with
  | ensure key generate =>
      simp only [happen, noted, run]
      cases hf : shelf.disk.isFile (store.pathFor key) with
      | true => rw [Store.ensure_of_found hf, Store.ensure_of_found hf]
      | false =>
          cases hr : (store.reserve (store.pathFor key) shelf.disk :
              Except (Failure R) Unit × Disk) with
          | mk reserved disk =>
          cases reserved with
          | error failure =>
              rw [Store.ensure_of_not_reserved hf hr, Store.ensure_of_not_reserved hf hr]
          | ok made =>
              rw [Store.ensure_of_reserved hf hr, Store.ensure_of_reserved hf hr]
              unfold Store.fill noting
              split
              · rfl
              · obtain ⟨content, state', hg⟩ :
                    ∃ content state', generate state = (content, state') := ⟨_, _, rfl⟩
                cases content <;> simp only [hg]
  | lookup key => rfl
  | pathFor key => rfl
  | reopen => rfl

/-- Watching a history changes none of its answers. -/
theorem events_eq_runAll (store : Store) (shelf : Shelf) (state : σ)
    (calls : List (StoreCall R σ)) :
    (events store shelf state calls).map (·.answer) = (runAll store shelf state calls).1 := by
  induction calls generalizing shelf state with
  | nil => rfl
  | cons call rest ih =>
      have hrun := happen_eq_run store shelf state call
      simp only [events, runAll, List.map_cons]
      rw [← hrun, ih]

theorem happen_ensure (store : Store) (key : AssetKey)
    (generate : σ → Except (Failure R) ByteArray × σ) (shelf : Shelf) (state : σ) :
    ∃ result state', ((ensure key generate).happen store shelf state).1.answer = .ensured result ∧
      store.Ensures key (noting generate) shelf (state, none) result
        ((ensure key generate).happen store shelf state).1.after
        (state', ((ensure key generate).happen store shelf state).1.generated) := by
  match hr : store.ensure key (noting generate) shelf (state, none) with
  | (result, shelf', state', generated) =>
      have hhappen : (ensure key generate).happen store shelf state
          = (⟨.ensure key generate, shelf, .ensured result, generated, shelf'⟩, state') := by
        simp only [happen, noted, run, hr]
      rw [hhappen]
      exact ⟨result, state', rfl, Store.ensures hr⟩

theorem noting_eq {outcome : Except (Failure R) ByteArray} {state' : σ}
    {note generated : Option (Except (Failure R) ByteArray)}
    (h : noting generate (state, note) = (outcome, state', generated)) :
    generate state = (outcome, state') ∧ generated = some outcome := by
  unfold noting at h
  obtain ⟨houtcome, hrest⟩ := Prod.mk.inj h
  obtain ⟨hstate, hgenerated⟩ := Prod.mk.inj hrest
  rw [houtcome] at hgenerated
  exact ⟨Prod.ext houtcome hstate, hgenerated.symm⟩

/-- A generator is invoked exactly if no file is at the path of its asset. -/
theorem generated_isSome_iff {result : Except (Failure R) String} {shelf' : Shelf} {state' : σ}
    {generated : Option (Except (Failure R) ByteArray)} (hext : Path.IsPart store.extension)
    (hfinds : store.Finds key shelf.disk) (hcan : store.CanReserve R key shelf.disk)
    (h : store.Ensures key (noting generate) shelf (state, none) result shelf'
      (state', generated)) :
    generated.isSome = true ↔ shelf.disk.isFile (store.pathFor key) = false := by
  cases h with
  | found hf => simp [hf]
  | refused hf hr =>
      have hok := hcan hf
      rw [hr] at hok
      cases hok
  | overtaken hf hr hf' =>
      have hthere := Store.isFile_of_reserve hext hfinds hr hf'
      rw [hf] at hthere
      cases hthere
  | failed hf hr hf' hg => simp [hf, (noting_eq hg).2]
  | answered hf hr hf' hg hk => simp [hf, (noting_eq hg).2]

/-- What a generator gave is kept if the call does not fail. -/
theorem generated_of_ok {path : String} {shelf' : Shelf} {state' : σ}
    {generated : Option (Except (Failure R) ByteArray)}
    (h : store.Ensures key (noting generate) shelf (state, none) (.ok path) shelf'
      (state', generated)) (hgenerated : generated.isSome = true) :
    ∃ content, generated = some (.ok content) ∧ content.isEmpty = false ∧
      shelf'.disk.Holds (store.pathFor key) content := by
  cases h with
  | found => cases hgenerated
  | overtaken => cases hgenerated
  | answered hf hr hf' hg hk =>
      obtain ⟨-, hcontent, -, hholds, -⟩ := Store.keep_eq_ok hk
      exact ⟨_, (noting_eq hg).2, hcontent, hholds⟩

/-- No call hides the file of an asset. -/
theorem finds_happen (state : σ) (hext : Path.IsPart store.extension)
    (hkey : ∀ k ∈ call.key?, k.Apart other)
    (hfinds : store.Finds other shelf.disk) :
    store.Finds other (call.happen store shelf state).1.after.disk := by
  cases call with
  | ensure key generate =>
      obtain ⟨result, state', -, h⟩ := happen_ensure store key generate shelf state
      exact h.finds hext (hkey key rfl) hfinds
  | lookup key => exact hfinds
  | pathFor key => exact hfinds
  | reopen => exact hfinds

/-- No call changes the file of an asset that is there. -/
theorem holds_happen (state : σ) (hext : Path.IsPart store.extension)
    (hkey : ∀ k ∈ call.key?, k.Apart other)
    {content : ByteArray} (hholds : shelf.disk.Holds (store.pathFor other) content) :
    (call.happen store shelf state).1.after.disk.Holds (store.pathFor other) content := by
  cases call with
  | ensure key generate =>
      obtain ⟨result, state', -, h⟩ := happen_ensure store key generate shelf state
      exact h.holds hext (hkey key rfl) hholds
  | lookup key => exact hholds
  | pathFor key => exact hholds
  | reopen => exact hholds

theorem countFrom_cons (n : Nat) (answer : StoreAnswer R) (rest : List (StoreAnswer R)) :
    StoreAnswer.countFrom n (answer :: rest)
      = StoreAnswer.countFrom (StoreAnswer.countFrom n [answer]) rest := by
  cases answer with
  | ensured result => cases result <;> rfl
  | found path => rfl
  | path path => rfl
  | reopened => rfl

/-- The counts follow the answer of a call. -/
theorem total_happen (store : Store) (shelf : Shelf) (state : σ) (call : StoreCall R σ) :
    (call.happen store shelf state).1.after.stats.total
      = StoreAnswer.countFrom shelf.stats.total [(call.happen store shelf state).1.answer] := by
  cases call with
  | ensure key generate =>
      obtain ⟨result, state', hanswer, h⟩ := happen_ensure store key generate shelf state
      rw [hanswer]
      have htotal := h.total
      cases result <;> exact htotal
  | lookup key => rfl
  | pathFor key => rfl
  | reopen => rfl

/-- While the file of an asset is there, no generator is invoked for the asset and the file
stays. -/
theorem kept_events (hext : Path.IsPart store.extension)
    (hkeys : ∀ call ∈ calls, ∀ k ∈ call.key?, k.Apart key) {content : ByteArray}
    (hholds : shelf.disk.Holds (store.pathFor key) content) :
    ∀ later ∈ events store shelf state calls,
      later.after.disk.read (store.pathFor key) = .ok content ∧
        ∀ generate, later.call = .ensure key generate → later.generated = none := by
  induction calls generalizing shelf state with
  | nil => simp [events]
  | cons call rest ih =>
      have hafter := holds_happen state hext (hkeys call List.mem_cons_self) hholds
      intro later hlater
      rcases List.mem_cons.mp hlater with rfl | hlater
      · refine ⟨hafter.read, ?_⟩
        intro generate hcall
        obtain rfl : call = .ensure key generate := hcall
        obtain ⟨result, state', -, h⟩ := happen_ensure store key generate shelf state
        exact congrArg Prod.snd (h.eq_of_isFile hholds.isFile).2.2
      · exact ih (fun other hother => hkeys other (List.mem_cons_of_mem _ hother)) hafter later
          hlater

theorem countFrom_append (n : Nat) (answers rest : List (StoreAnswer R)) :
    StoreAnswer.countFrom n (answers ++ rest)
      = StoreAnswer.countFrom (StoreAnswer.countFrom n answers) rest := by
  induction answers generalizing n with
  | nil => rfl
  | cons answer answers ih => rw [List.cons_append, countFrom_cons, ih, ← countFrom_cons]

/-- Every event of a history is a call on a shelf that hides no file of an asset and whose counts
are those of the answers so far; what is behind the event is the history of the calls left. -/
theorem exists_happen {past future : List (StoreEvent R σ)} {e : StoreEvent R σ}
    (hext : Path.IsPart store.extension)
    (hapart : ∀ key ∈ keys, ∀ other ∈ keys, AssetKey.Apart key other)
    (hkeys : ∀ call ∈ calls, ∀ key ∈ call.key?, key ∈ keys)
    (hfinds : ∀ key ∈ keys, store.Finds key shelf.disk)
    (h : events store shelf state calls = past ++ e :: future) :
    ∃ shelf' state' call rest, call ∈ calls ∧ rest ⊆ calls ∧
      e = (call.happen store shelf' state').1 ∧
      future = events store e.after (call.happen store shelf' state').2 rest ∧
      (∀ key ∈ keys, store.Finds key shelf'.disk) ∧
      shelf'.stats.total
        = StoreAnswer.countFrom shelf.stats.total (past.map (·.answer)) := by
  induction past generalizing calls shelf state with
  | nil =>
      cases calls with
      | nil => cases h
      | cons call rest =>
          obtain ⟨rfl, rfl⟩ := List.cons.inj h
          exact ⟨shelf, state, call, rest, List.mem_cons_self, List.subset_cons_self call rest,
            rfl, rfl, hfinds, rfl⟩
  | cons first past ih =>
      cases calls with
      | nil => cases h
      | cons call rest =>
          obtain ⟨rfl, hrest⟩ := List.cons.inj h
          have hcall : ∀ other ∈ keys, ∀ k ∈ call.key?, k.Apart other :=
            fun other ho k hk => hapart k (hkeys call List.mem_cons_self k hk) other ho
          have hfinds' : ∀ key ∈ keys,
              store.Finds key (call.happen store shelf state).1.after.disk :=
            fun key hk => finds_happen state hext (hcall key hk) (hfinds key hk)
          have hkeys' : ∀ other ∈ rest, ∀ key ∈ other.key?, key ∈ keys :=
            fun other ho => hkeys other (List.mem_cons_of_mem call ho)
          obtain ⟨shelf', state', call', rest', hmem, hsub, he, hfuture, hf, htotal⟩ :=
            ih hkeys' hfinds' hrest
          refine ⟨shelf', state', call', rest', List.mem_cons_of_mem call hmem,
            fun _ hr => List.mem_cons_of_mem call (hsub hr), he, hfuture, hf, ?_⟩
          rw [htotal, List.map_cons, countFrom_cons shelf.stats.total, total_happen]

theorem exists_happen_of_mem {e : StoreEvent R σ} (hext : Path.IsPart store.extension)
    (hapart : ∀ key ∈ keys, ∀ other ∈ keys, AssetKey.Apart key other)
    (hkeys : ∀ call ∈ calls, ∀ key ∈ call.key?, key ∈ keys)
    (hfinds : ∀ key ∈ keys, store.Finds key shelf.disk)
    (he : e ∈ events store shelf state calls) :
    ∃ shelf' state' call, call ∈ calls ∧ e = (call.happen store shelf' state').1 ∧
      ∀ key ∈ keys, store.Finds key shelf'.disk := by
  obtain ⟨past, future, hsplit⟩ := List.append_of_mem he
  obtain ⟨shelf', state', call, rest, hmem, -, heq, -, hf, -⟩ :=
    exists_happen hext hapart hkeys hfinds hsplit
  exact ⟨shelf', state', call, hmem, heq, hf⟩

end StoreCall

/-- **The law of the store.** Over every history of calls, from every disk on which the files of the
assets are found by their paths, with keys of distinct digests and while folders and lock files can
be made: a generator is invoked exactly if no file is there, what was generated is kept and never
generated again, assets do not disturb each other, and the counts are those of the answers. -/
theorem events_lawful (store : Store) (hext : Path.IsPart store.extension) (keys : List AssetKey)
    (hapart : ∀ key ∈ keys, ∀ other ∈ keys, AssetKey.Apart key other) (shelf : Shelf)
    (hfinds : ∀ key ∈ keys, store.Finds key shelf.disk) (state : σ)
    (calls : List (StoreCall R σ)) (hkeys : ∀ call ∈ calls, ∀ key ∈ call.key?, key ∈ keys)
    (hcan : ∀ e ∈ StoreCall.events store shelf state calls, ∀ key ∈ e.call.key?,
      store.CanReserve R key e.before.disk) :
    Lawful store keys shelf (StoreCall.events store shelf state calls) where
  generates := by
    intro e he key generate hcall
    have hreserve := hcan e he
    obtain ⟨shelf', state', call, hmem, rfl, hf⟩ :=
      StoreCall.exists_happen_of_mem hext hapart hkeys hfinds he
    obtain rfl : call = .ensure key generate := hcall
    obtain ⟨result, state'', -, h⟩ := StoreCall.happen_ensure store key generate shelf' state'
    exact StoreCall.generated_isSome_iff hext (hf key (hkeys _ hmem key rfl))
      (hreserve key rfl) h
  answers := by
    intro e he key generate path hcall hanswer
    obtain ⟨shelf', state', call, -, rfl, -⟩ :=
      StoreCall.exists_happen_of_mem hext hapart hkeys hfinds he
    obtain rfl : call = .ensure key generate := hcall
    obtain ⟨result, state'', hresult, h⟩ :=
      StoreCall.happen_ensure store key generate shelf' state'
    rw [hresult] at hanswer
    cases hanswer
    exact h.eq_pathFor
  keeps := by
    intro past e future hsplit key generate path hcall hgenerated hanswer
    obtain ⟨shelf', state', call, rest, hmem, hsub, rfl, rfl, hf, -⟩ :=
      StoreCall.exists_happen hext hapart hkeys hfinds hsplit
    obtain rfl : call = .ensure key generate := hcall
    obtain ⟨result, state'', hresult, h⟩ :=
      StoreCall.happen_ensure store key generate shelf' state'
    rw [hresult] at hanswer
    cases hanswer
    obtain ⟨content, hcontent, hsome, hholds⟩ := StoreCall.generated_of_ok h hgenerated
    refine ⟨content, hcontent, hsome, hholds.read, ?_⟩
    have hkey := hkeys _ hmem key rfl
    exact StoreCall.kept_events hext
      (fun other ho k hk => hapart k (hkeys other (hsub ho) k hk) key hkey) hholds
  apart := by
    intro e he key hkey hother content
    obtain ⟨shelf', state', call, hmem, rfl, hf⟩ :=
      StoreCall.exists_happen_of_mem hext hapart hkeys hfinds he
    cases call with
    | ensure other generate =>
        obtain ⟨result, state'', -, h⟩ := StoreCall.happen_ensure store other generate shelf' state'
        have hne : key ≠ other := fun heq => hother (congrArg some heq.symm)
        obtain ⟨touched, hchanges, hplace⟩ :=
          h.changes_other hext (hapart other (hkeys _ hmem other rfl) key hkey) hne
        exact (hf key hkey).read_eq_ok_iff hchanges hplace content
    | lookup other => exact Iff.rfl
    | pathFor other => exact Iff.rfl
    | reopen => exact Iff.rfl
  looks := by
    intro e he key hcall generate other
    have hreserve := hcan e he
    obtain ⟨shelf', state', call, hmem, rfl, hf⟩ :=
      StoreCall.exists_happen_of_mem hext hapart hkeys hfinds he
    obtain rfl : call = .lookup key := hcall
    obtain ⟨result, state'', -, h⟩ := StoreCall.happen_ensure store key generate shelf' other
    have hiff := StoreCall.generated_isSome_iff hext (hf key (hkeys _ hmem key rfl))
      (hreserve key rfl) h
    refine ⟨store.lookup key shelf'.disk, rfl, ?_, ?_⟩
    · intro path hpath
      unfold Store.lookup at hpath
      split at hpath
      · exact (Option.some.inj hpath).symm
      · cases hpath
    · rw [← Option.not_isSome_iff_eq_none]
      change _ ↔ ¬ ((StoreCall.ensure key generate).happen store shelf' other).1.generated.isSome
        = true
      rw [hiff, Bool.not_eq_false, Store.lookup]
      split
      · next hfile => simp [hfile]
      · next hfile => simp [hfile]
  counts := by
    intro past e future hsplit
    obtain ⟨shelf', state', call, rest, -, -, rfl, -, -, htotal⟩ :=
      StoreCall.exists_happen hext hapart hkeys hfinds hsplit
    rw [List.map_append, StoreCall.countFrom_append, ← htotal]
    exact StoreCall.total_happen store shelf' state' call

/-- A generator that gives the count of its calls as a single byte. -/
def countingGenerator (n : Nat) : Except (Failure Float) ByteArray × Nat :=
  (.ok ⟨#[n.toUInt8]⟩, n + 1)

/-- A generator that fails before one that answers, and a look behind a reopening. -/
theorem events_lawful_greeting :
    Lawful ⟨"cache", "opus", 7⟩ [greeting] {}
      (StoreCall.events ⟨"cache", "opus", 7⟩ {} 0
        [.ensure greeting fun n => (.error (.other "busy" []), n + 1),
          .ensure greeting countingGenerator, .reopen, .lookup greeting]) := by
  apply events_lawful ⟨"cache", "opus", 7⟩ (by decide) [greeting]
  · intro key hkey other hother
    rw [List.mem_singleton.mp hkey, List.mem_singleton.mp hother]
    exact AssetKey.Apart.refl greeting
  · intro key _
    exact Store.finds_empty (by decide) key
  · decide
  · decide +kernel

/-- Both conditions on the store are needed. Below a root that hides a file, making the missing
folder brings the file up, so that an asset that could not be found is not generated. With an
extension that holds slashes, the file of one asset is that of another. -/
theorem not_lawful_hidden_or_shared :
    (∀ e ∈ StoreCall.events hidingStore hiddenShelf 0 [.ensure greeting countingGenerator],
        ∀ key ∈ e.call.key?, hidingStore.CanReserve Float key e.before.disk) ∧
      ¬ Lawful hidingStore [greeting] hiddenShelf
        (StoreCall.events hidingStore hiddenShelf 0 [.ensure greeting countingGenerator]) ∧
    (∀ e ∈ StoreCall.events sharingStore sharedShelf 0 [.ensure greeting countingGenerator],
        ∀ key ∈ e.call.key?, sharingStore.CanReserve Float key e.before.disk) ∧
      greeting.Apart farewell ∧
      ¬ Lawful sharingStore [greeting, farewell] sharedShelf
        (StoreCall.events sharingStore sharedShelf 0 [.ensure greeting countingGenerator]) := by
  refine ⟨by decide +kernel, ?_, by decide +kernel, ?_, ?_⟩
  · intro h
    have hsome := (h.generates _ List.mem_cons_self greeting countingGenerator rfl).mpr
      (by decide +kernel)
    exact absurd hsome (by decide +kernel)
  · intro heq
    exact absurd heq (by decide +kernel)
  · intro h
    have hiff := h.apart _ List.mem_cons_self farewell (by decide) (by decide) ⟨#[0]⟩
    exact absurd (hiff.mp (by decide +kernel)) (by decide +kernel)

end Soundstage
