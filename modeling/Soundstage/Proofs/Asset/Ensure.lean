import Soundstage.Proofs.Asset.Keeping

/-!
# The ways through a call to the store

`Store.ensure` ends at one of six places: the asset is found, the lock file cannot be made, the
asset is found behind the lock, the generator fails, what it gave cannot be kept, or it is stored.
`Store.Ensures` has one constructor for each, with all that is known there. Every law of the store
is a case analysis on it, so that none of them opens the call again.
-/

namespace Soundstage

variable {R σ : Type}

/-- How many calls have been answered, by either count. -/
def Stats.total (stats : Stats) : Nat := stats.hits + stats.generated

@[simp] theorem Stats.total_hit (stats : Stats) : stats.hit.total = stats.total + 1 := by
  change stats.hits + 1 + stats.generated = stats.hits + stats.generated + 1
  omega

@[simp] theorem Stats.total_generate (stats : Stats) :
    stats.generate.total = stats.total + 1 := rfl

namespace Store

variable {store : Store} {key : AssetKey} {generate : σ → Except (Failure R) ByteArray × σ}
  {content : ByteArray} {failure : Failure R} {shelf shelf' : Shelf} {disk : Disk}
  {state state' : σ} {result : Except (Failure R) String} {path : String}

theorem checkContent_eq_ok_iff :
    (checkContent key content : Except (Failure R) Unit) = .ok () ↔ content.isEmpty = false := by
  unfold checkContent
  cases content.isEmpty <;> simp

theorem keep_of_isEmpty (h : content.isEmpty = true) :
    store.keep key content shelf
      = ((.error (.emptyAsset key.role.name key.text), shelf) :
          Except (Failure R) String × Shelf) := by
  simp only [keep, checkContent, h, if_true]

theorem keep_of_not_written (h : content.isEmpty = false)
    (hw : store.writeWhole (store.pathFor key) content shelf = (.error failure, shelf')) :
    store.keep key content shelf = (.error failure, shelf') := by
  simp only [keep, checkContent_eq_ok_iff.mpr h, hw]

theorem keep_of_written (h : content.isEmpty = false)
    (hw : store.writeWhole (store.pathFor key) content shelf
      = ((.ok (), shelf') : Except (Failure R) Unit × Shelf)) :
    store.keep key content shelf
      = ((.ok (store.pathFor key), shelf'.generate) : Except (Failure R) String × Shelf) := by
  simp only [keep, checkContent_eq_ok_iff.mpr h, hw]

/-- What has been kept is found with all its bytes, and is counted. -/
theorem keep_eq_ok (h : store.keep key content shelf
      = ((.ok path, shelf') : Except (Failure R) String × Shelf)) :
    path = store.pathFor key ∧ content.isEmpty = false ∧
      shelf.disk.Writes shelf'.disk
        [Path.place (store.temporaryPath (store.pathFor key) shelf.temporaries),
          Path.place (store.pathFor key)] ∧
      shelf'.disk.Holds (store.pathFor key) content ∧
      shelf'.stats = shelf.stats.generate ∧ shelf'.temporaries = shelf.temporaries + 1 := by
  cases hc : content.isEmpty with
  | true =>
      rw [keep_of_isEmpty hc] at h
      cases h
  | false =>
      match hw : (store.writeWhole (store.pathFor key) content shelf :
          Except (Failure R) Unit × Shelf) with
      | (.error failure, written) =>
          rw [keep_of_not_written hc hw] at h
          cases h
      | (.ok (), written) =>
          rw [keep_of_written hc hw] at h
          cases h
          obtain ⟨hwrites, hholds, hstats, htemporaries⟩ := writeWhole_eq_ok hw
          exact ⟨rfl, rfl, hwrites, hholds, congrArg Stats.generate hstats, htemporaries⟩

/-- What could not be kept leaves the file of the asset and the counts as they were. -/
theorem keep_eq_error (h : store.keep key content shelf = (.error failure, shelf')) :
    shelf.disk.Writes shelf'.disk
        [Path.place (store.temporaryPath (store.pathFor key) shelf.temporaries)] ∧
      shelf'.stats = shelf.stats := by
  cases hc : content.isEmpty with
  | true =>
      rw [keep_of_isEmpty hc] at h
      cases h
      exact ⟨.refl _ _, rfl⟩
  | false =>
      match hw : (store.writeWhole (store.pathFor key) content shelf :
          Except (Failure R) Unit × Shelf) with
      | (.error failure', written) =>
          rw [keep_of_not_written hc hw] at h
          cases h
          obtain ⟨hwrites, hstats, -⟩ := writeWhole_eq_error hw
          exact ⟨hwrites, hstats⟩
      | (.ok (), written) =>
          rw [keep_of_written hc hw] at h
          cases h

theorem fill_of_found (shelf : Shelf)
    (h : shelf.disk.isFile (store.pathFor key) = true) :
    store.fill key generate shelf state = (.ok (store.pathFor key), shelf.hit, state) := by
  unfold fill
  simp only [h, if_true]

theorem fill_of_failed (shelf : Shelf)
    (h : shelf.disk.isFile (store.pathFor key) = false)
    (hg : generate state = (.error failure, state')) :
    store.fill key generate shelf state = (.error failure, shelf, state') := by
  unfold fill
  simp only [h, Bool.false_eq_true, if_false, hg]

theorem fill_of_answered (shelf : Shelf)
    (h : shelf.disk.isFile (store.pathFor key) = false)
    (hg : generate state = (.ok content, state'))
    (hk : store.keep key content shelf = (result, shelf')) :
    store.fill key generate shelf state = (result, shelf', state') := by
  unfold fill
  simp only [h, Bool.false_eq_true, if_false, hg, hk]

theorem ensure_of_found (h : shelf.disk.isFile (store.pathFor key) = true) :
    store.ensure key generate shelf state = (.ok (store.pathFor key), shelf.hit, state) := by
  have ha : store.approach key shelf
      = ((some (.ok (store.pathFor key)), shelf.hit) :
          Option (Except (Failure R) String) × Shelf) := by
    unfold approach
    simp only [h, if_true]
  unfold ensure
  rw [ha]

theorem ensure_of_not_reserved (h : shelf.disk.isFile (store.pathFor key) = false)
    (hr : store.reserve (store.pathFor key) shelf.disk = (.error failure, disk)) :
    store.ensure key generate shelf state
      = (.error failure, { shelf with disk := disk }, state) := by
  have ha : store.approach key shelf
      = ((some (.error failure), { shelf with disk := disk }) :
          Option (Except (Failure R) String) × Shelf) := by
    unfold approach
    simp only [h, Bool.false_eq_true, if_false, hr]
  unfold ensure
  rw [ha]

theorem ensure_of_reserved (h : shelf.disk.isFile (store.pathFor key) = false)
    (hr : store.reserve (store.pathFor key) shelf.disk
      = ((.ok (), disk) : Except (Failure R) Unit × Disk)) :
    store.ensure key generate shelf state
      = store.fill key generate { shelf with disk := disk } state := by
  have ha : store.approach key shelf
      = ((none, { shelf with disk := disk }) : Option (Except (Failure R) String) × Shelf) := by
    unfold approach
    simp only [h, Bool.false_eq_true, if_false, hr]
  unfold ensure
  rw [ha]

/-- The ways through a call, each with its answer and what it leaves behind. -/
inductive Ensures (store : Store) (key : AssetKey)
    (generate : σ → Except (Failure R) ByteArray × σ) (shelf : Shelf) (state : σ) :
    Except (Failure R) String → Shelf → σ → Prop
  /-- The asset is there. -/
  | found (h : shelf.disk.isFile (store.pathFor key) = true) :
      Ensures store key generate shelf state (.ok (store.pathFor key)) shelf.hit state
  /-- The folder or the lock file cannot be made. -/
  | refused {failure : Failure R} {disk : Disk}
      (h : shelf.disk.isFile (store.pathFor key) = false)
      (hr : store.reserve (store.pathFor key) shelf.disk = (.error failure, disk)) :
      Ensures store key generate shelf state (.error failure) { shelf with disk := disk } state
  /-- The asset is there when the lock is held. -/
  | overtaken {disk : Disk} (h : shelf.disk.isFile (store.pathFor key) = false)
      (hr : store.reserve (store.pathFor key) shelf.disk
        = ((.ok (), disk) : Except (Failure R) Unit × Disk))
      (hf : disk.isFile (store.pathFor key) = true) :
      Ensures store key generate shelf state (.ok (store.pathFor key))
        { shelf with disk := disk }.hit state
  /-- The generator fails. -/
  | failed {failure : Failure R} {disk : Disk} {state' : σ}
      (h : shelf.disk.isFile (store.pathFor key) = false)
      (hr : store.reserve (store.pathFor key) shelf.disk
        = ((.ok (), disk) : Except (Failure R) Unit × Disk))
      (hf : disk.isFile (store.pathFor key) = false)
      (hg : generate state = (.error failure, state')) :
      Ensures store key generate shelf state (.error failure) { shelf with disk := disk } state'
  /-- The generator answers, and its bytes are kept or not. -/
  | answered {content : ByteArray} {disk : Disk} {state' : σ} {result : Except (Failure R) String}
      {shelf' : Shelf} (h : shelf.disk.isFile (store.pathFor key) = false)
      (hr : store.reserve (store.pathFor key) shelf.disk
        = ((.ok (), disk) : Except (Failure R) Unit × Disk))
      (hf : disk.isFile (store.pathFor key) = false)
      (hg : generate state = (.ok content, state'))
      (hk : store.keep key content { shelf with disk := disk } = (result, shelf')) :
      Ensures store key generate shelf state result shelf' state'

/-- Every call goes one of the ways. -/
theorem ensures (h : store.ensure key generate shelf state = (result, shelf', state')) :
    store.Ensures key generate shelf state result shelf' state' := by
  cases hf : shelf.disk.isFile (store.pathFor key) with
  | true =>
      rw [ensure_of_found hf] at h
      cases h
      exact .found hf
  | false =>
      match hr : (store.reserve (store.pathFor key) shelf.disk :
          Except (Failure R) Unit × Disk) with
      | (.error failure, disk) =>
          rw [ensure_of_not_reserved hf hr] at h
          cases h
          exact .refused hf hr
      | (.ok (), disk) =>
          rw [ensure_of_reserved hf hr] at h
          cases hf' : disk.isFile (store.pathFor key) with
          | true =>
              rw [fill_of_found { shelf with disk := disk } hf'] at h
              cases h
              exact .overtaken hf hr hf'
          | false =>
              match hg : generate state with
              | (.error failure, state') =>
                  rw [fill_of_failed { shelf with disk := disk } hf' hg] at h
                  cases h
                  exact .failed hf hr hf' hg
              | (.ok content, state') =>
                  match hk : (store.keep key content { shelf with disk := disk } :
                      Except (Failure R) String × Shelf) with
                  | (result, shelf') =>
                      rw [fill_of_answered { shelf with disk := disk } hf' hg hk] at h
                      cases h
                      exact .answered hf hr hf' hg hk

/-- An asset is had if it is found, either at once or when its lock has been made, or else if its
generator gives bytes that can be written. -/
theorem Ensures.eq_ok_iff
    (h : store.Ensures key generate shelf state result shelf' state') :
    result = .ok (store.pathFor key) ↔
      (shelf.disk.isFile (store.pathFor key) = false → ∃ disk,
        store.reserve (store.pathFor key) shelf.disk
            = ((.ok (), disk) : Except (Failure R) Unit × Disk) ∧
          (disk.isFile (store.pathFor key) = false → ∃ content,
            (generate state).1 = .ok content ∧ content.isEmpty = false ∧
              (store.writeWhole (store.pathFor key) content { shelf with disk := disk } :
                Except (Failure R) Unit × Shelf).1 = .ok ())) := by
  cases h with
  | found hf => simp [hf]
  | refused hf hr => simp [hf, hr]
  | overtaken hf hr hf' => simp [hf, hr, hf']
  | failed hf hr hf' hg => simp [hf, hr, hf', hg]
  | @answered content disk _ _ _ hf hr hf' hg hk =>
      cases hbytes : content.isEmpty with
      | true =>
          rw [keep_of_isEmpty hbytes] at hk
          cases hk
          simp [hf, hr, hf', hg, hbytes]
      | false =>
          match hw : (store.writeWhole (store.pathFor key) content { shelf with disk := disk } :
              Except (Failure R) Unit × Shelf) with
          | (.error failure, written) =>
              rw [keep_of_not_written hbytes hw] at hk
              cases hk
              simp [hf, hr, hf', hg, hbytes, hw]
          | (.ok (), written) =>
              rw [keep_of_written hbytes hw] at hk
              cases hk
              simp [hf, hr, hf', hg, hbytes, hw]

/-- The places that making a file touches beside that of the file: its lock file and one temporary
file. -/
def scratch (store : Store) (key : AssetKey) (n : Nat) : List Place :=
  [Path.place (lockPath (store.pathFor key)),
    Path.place (store.temporaryPath (store.pathFor key) n)]

/-- A call either stores what its generator gave or leaves the place of the asset alone. -/
theorem Ensures.changes (h : store.Ensures key generate shelf state result shelf' state') :
    shelf.disk.Changes shelf'.disk (store.scratch key shelf.temporaries) ∨
      ∃ content, generate state = (.ok content, state') ∧ content.isEmpty = false ∧
        result = .ok (store.pathFor key) ∧ shelf'.disk.Holds (store.pathFor key) content ∧
        shelf.disk.Changes shelf'.disk
          (Path.place (store.pathFor key) :: store.scratch key shelf.temporaries) := by
  cases h with
  | found => exact .inl (.refl _ _)
  | refused _ hr => exact .inl ((changes_reserve hr).of_first _)
  | overtaken _ hr => exact .inl ((changes_reserve hr).of_first _)
  | failed _ hr => exact .inl ((changes_reserve hr).of_first _)
  | answered _ hr _ hg hk =>
      have hreserve := (changes_reserve hr).of_first
        (Path.place (store.temporaryPath (store.pathFor key) shelf.temporaries))
      cases result with
      | error failure => exact .inl (hreserve.trans ((keep_eq_error hk).1.changes.of_second _))
      | ok path =>
          obtain ⟨rfl, hcontent, hwrites, hholds, -⟩ := keep_eq_ok hk
          refine .inr ⟨_, hg, hcontent, rfl, hholds, ?_⟩
          refine (hreserve.mono (List.subset_cons_self _ _)).trans (hwrites.changes.mono ?_)
          intro place hplace
          rcases List.mem_cons.mp hplace with rfl | hplace
          · exact List.mem_cons_of_mem _ (List.mem_cons_of_mem _ List.mem_cons_self)
          · rw [List.mem_singleton.mp hplace]
            exact List.mem_cons_self

/-- A call for an asset that is there answers, is counted and changes nothing else. -/
theorem Ensures.eq_of_isFile (h : store.Ensures key generate shelf state result shelf' state')
    (hf : shelf.disk.isFile (store.pathFor key) = true) :
    result = .ok (store.pathFor key) ∧ shelf' = shelf.hit ∧ state' = state := by
  cases h with
  | found => exact ⟨rfl, rfl, rfl⟩
  | refused hno => exact absurd hf (by simp [hno])
  | overtaken hno => exact absurd hf (by simp [hno])
  | failed hno => exact absurd hf (by simp [hno])
  | answered hno => exact absurd hf (by simp [hno])

/-- A call counts exactly if it does not fail. -/
theorem Ensures.total (h : store.Ensures key generate shelf state result shelf' state') :
    shelf'.stats.total = shelf.stats.total + if result.isOk then 1 else 0 := by
  cases h with
  | found => exact shelf.stats.total_hit
  | refused => rfl
  | overtaken => exact shelf.stats.total_hit
  | failed => rfl
  | answered _ _ _ _ hk =>
      cases result with
      | error failure =>
          rw [(keep_eq_error hk).2]
          rfl
      | ok path =>
          obtain ⟨-, -, -, -, hstats, -⟩ := keep_eq_ok hk
          rw [hstats]
          exact shelf.stats.total_generate

/-- The store answers with the path of the asset whenever it does not fail. -/
theorem Ensures.eq_pathFor (h : store.Ensures key generate shelf state (.ok path) shelf' state') :
    path = store.pathFor key := by
  cases h with
  | found => rfl
  | overtaken => rfl
  | answered _ _ _ _ hk => exact (keep_eq_ok hk).1

end Store

end Soundstage
