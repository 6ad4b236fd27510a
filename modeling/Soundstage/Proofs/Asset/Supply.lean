import Soundstage.Proofs.Asset.Room

/-!
# What a store keeps

To a build a store is a table: for each key the bytes that it keeps, `Store.kept`. A call for a key
that is in the table leaves the table as it is; a call for another key asks the generator and adds
what it gives, `Store.offered`. This needs that files can be made. On every shelf that the store
comes to by such calls, `Store.Reached`, it still has the room that it had at the start.
-/

namespace Soundstage

variable {R σ : Type}

namespace Store

variable {store : Store} {key other : AssetKey} {keys : List AssetKey} {start shelf shelf' : Shelf}
  {disk : Disk} {state state' : σ} {generate : σ → Except (Failure R) ByteArray × σ}
  {outcome : Except (Failure R) ByteArray} {content : ByteArray}

/-- The bytes that are kept for a key. -/
def kept (store : Store) (key : AssetKey) (disk : Disk) : Option ByteArray :=
  (disk.read (store.pathFor key)).toOption

theorem kept_eq_some_iff :
    store.kept key disk = some content ↔ disk.Holds (store.pathFor key) content := by
  rw [← Disk.read_eq_ok_iff, kept]
  cases disk.read (store.pathFor key) <;> simp [Except.toOption]

theorem isSome_kept : (store.kept key disk).isSome = disk.isFile (store.pathFor key) := by
  rw [Bool.eq_iff_iff, Option.isSome_iff_exists, Disk.isFile_iff]
  simp only [kept_eq_some_iff]

theorem kept_eq_none_iff :
    store.kept key disk = none ↔ disk.isFile (store.pathFor key) = false := by
  rw [← isSome_kept, Option.isSome_eq_false_iff, Option.isNone_iff_eq_none]

/-- What a generator offers to a store: no bytes are a failure. -/
def offered (key : AssetKey) (outcome : Except (Failure R) ByteArray) :
    Except (Failure R) ByteArray := do
  let content ← outcome
  checkContent key content
  return content

@[simp] theorem offered_error (key : AssetKey) (failure : Failure R) :
    offered key (.error failure) = .error failure := rfl

theorem offered_of_isEmpty (h : content.isEmpty = true) :
    (offered key (.ok content) : Except (Failure R) ByteArray)
      = .error (.emptyAsset key.role.name key.text) := by
  simp [offered, checkContent, h, bind, Except.bind]

theorem offered_of_not_isEmpty (h : content.isEmpty = false) :
    (offered key (.ok content) : Except (Failure R) ByteArray) = .ok content := by
  simp [offered, checkContent, h, bind, Except.bind, pure, Except.pure]

/-- The shelves that a store comes to by calls for some keys, whatever the generators. -/
inductive Reached (R : Type) (store : Store) (keys : List AssetKey) (start : Shelf) : Shelf → Prop
  | start : Reached R store keys start start
  | ensure {S : Type} {key : AssetKey} {generate : S → Except (Failure R) ByteArray × S}
      {shelf shelf' : Shelf} {state state' : S} {result : Except (Failure R) String} :
      Reached R store keys start shelf → key ∈ keys →
      store.Ensures key generate shelf state result shelf' state' →
      Reached R store keys start shelf'

/-- No call hides the file of an asset. -/
theorem Reached.finds (h : store.Reached R keys start shelf) (hext : Path.IsPart store.extension)
    (hapart : ∀ key ∈ keys, key.Apart other) (hfinds : store.Finds other start.disk) :
    store.Finds other shelf.disk := by
  induction h with
  | start => exact hfinds
  | ensure _ hkey hensures ih => exact hensures.finds hext (hapart _ hkey) ih

/-- No call touches the file of an asset that stands at another place. -/
theorem Reached.get?_eq_file_iff (h : store.Reached R keys start shelf)
    (hext : Path.IsPart store.extension)
    (hplace : ∀ key ∈ keys, Path.place (store.pathFor other) ≠ Path.place (store.pathFor key)) :
    shelf.disk.get? (Path.place (store.pathFor other)) = some (.file content) ↔
      start.disk.get? (Path.place (store.pathFor other)) = some (.file content) := by
  induction h with
  | start => exact Iff.rfl
  | @ensure S key generate shelf shelf' state state' result _ hkey hensures ih =>
      rw [← ih]
      have hscratch := place_not_mem_scratch hext key other shelf.temporaries
      rcases hensures.changes with hchanges | ⟨made, -, -, -, -, hchanges⟩
      · exact hchanges.get?_eq_file_iff hscratch
      · refine hchanges.get?_eq_file_iff ?_
        intro hmem
        rcases List.mem_cons.mp hmem with heq | hmem
        · exact hplace key hkey heq
        · exact hscratch hmem

/-- A call for a key that is in the table is a hit. -/
theorem ensure_of_kept (h : store.kept key shelf.disk = some content) :
    store.ensure key generate shelf state = (.ok (store.pathFor key), shelf.hit, state) :=
  ensure_of_found (kept_eq_some_iff.mp h).isFile

/-- A call for one key leaves the rest of the table as it is. -/
theorem Ensures.kept_other {result : Except (Failure R) String}
    (h : store.Ensures key generate shelf state result shelf' state')
    (hext : Path.IsPart store.extension) (hapart : key.Apart other) (hne : other ≠ key)
    (hfinds : store.Finds other shelf.disk) :
    store.kept other shelf'.disk = store.kept other shelf.disk := by
  obtain ⟨touched, hchanges, hplace⟩ := h.changes_other hext hapart hne
  refine Option.ext fun content => ?_
  have hiff := hfinds.read_eq_ok_iff hchanges hplace content
  rw [Disk.read_eq_ok_iff, Disk.read_eq_ok_iff] at hiff
  rw [kept_eq_some_iff, kept_eq_some_iff]
  exact hiff

/-- A call for an absent asset that can be stored makes the lock file and asks the generator. Then
it writes what the generator offers, or fails and leaves it at that. -/
theorem Ensures.of_canStore {result : Except (Failure R) String}
    (h : store.Ensures key generate shelf state result shelf' state')
    (hext : Path.IsPart store.extension) (hfinds : store.Finds key shelf.disk)
    (hcan : store.CanStore R 1 shelf key) (hf : shelf.disk.isFile (store.pathFor key) = false) :
    state' = (generate state).2 ∧ ∃ disk,
      store.reserve (store.pathFor key) shelf.disk
          = ((.ok (), disk) : Except (Failure R) Unit × Disk) ∧
        disk.isFile (store.pathFor key) = false ∧
        ((∃ content written, offered key (generate state).1 = .ok content ∧
            result = .ok (store.pathFor key) ∧ shelf' = written.generate ∧
            store.writeWhole (store.pathFor key) content { shelf with disk := disk }
              = ((.ok (), written) : Except (Failure R) Unit × Shelf)) ∨
          ∃ failure, offered key (generate state).1 = .error failure ∧ result = .error failure ∧
            shelf' = { shelf with disk := disk }) := by
  obtain ⟨made, hmade, hwrite⟩ := hcan hf
  cases h with
  | found hf' =>
      rw [hf] at hf'
      cases hf'
  | refused _ hr =>
      rw [hmade] at hr
      cases hr
  | overtaken _ hr hf' =>
      have hthere := isFile_of_reserve hext hfinds hr hf'
      rw [hf] at hthere
      cases hthere
  | failed _ hr hf' hg =>
      rw [hg]
      exact ⟨rfl, _, hr, hf', .inr ⟨_, rfl, rfl, rfl⟩⟩
  | @answered content disk _ _ _ _ hr hf' hg hk =>
      rw [hg]
      refine ⟨rfl, disk, hr, hf', ?_⟩
      cases hc : content.isEmpty with
      | true =>
          rw [keep_of_isEmpty hc] at hk
          cases hk
          exact .inr ⟨_, offered_of_isEmpty hc, rfl, rfl⟩
      | false =>
          rw [hmade] at hr
          cases hr
          have hok : (store.writeWhole (store.pathFor key) content { shelf with disk := made } :
              Except (Failure R) Unit × Shelf).1 = .ok () := hwrite 0 Nat.one_pos content
          match hw : (store.writeWhole (store.pathFor key) content { shelf with disk := made } :
              Except (Failure R) Unit × Shelf) with
          | (.error failure, written) =>
              rw [hw] at hok
              cases hok
          | (.ok (), written) =>
              rw [keep_of_written hc hw] at hk
              cases hk
              exact .inl ⟨content, written, offered_of_not_isEmpty hc, rfl, rfl, hw⟩

/-- A call for a key that is not in the table asks the generator and adds what it offers. -/
theorem Ensures.of_absent {result : Except (Failure R) String}
    (h : store.Ensures key generate shelf state result shelf' state')
    (hext : Path.IsPart store.extension) (hfinds : store.Finds key shelf.disk)
    (hcan : store.CanStore R 1 shelf key) (hk : store.kept key shelf.disk = none) :
    state' = (generate state).2 ∧
      ((∃ content, offered key (generate state).1 = .ok content ∧
          result = .ok (store.pathFor key) ∧ store.kept key shelf'.disk = some content ∧
          shelf'.stats = shelf.stats.generate) ∨
        ∃ failure, offered key (generate state).1 = .error failure ∧ result = .error failure ∧
          store.kept key shelf'.disk = none ∧ shelf'.stats = shelf.stats) := by
  obtain ⟨hstate, disk, -, hf, hends⟩ := h.of_canStore hext hfinds hcan (kept_eq_none_iff.mp hk)
  refine ⟨hstate, ?_⟩
  rcases hends with ⟨content, written, hoffered, rfl, rfl, hw⟩ | ⟨failure, hoffered, rfl, rfl⟩
  · obtain ⟨-, hholds, hstats, -⟩ := writeWhole_eq_ok hw
    exact .inl ⟨content, hoffered, rfl, kept_eq_some_iff.mpr hholds,
      congrArg Stats.generate hstats⟩
  · exact .inr ⟨failure, hoffered, rfl, kept_eq_none_iff.mpr hf, rfl⟩

/-- A store keeps its room from call to call. -/
theorem Ensures.roomy {result : Except (Failure R) String} {first last : Nat}
    (h : store.Ensures key generate shelf state result shelf' state')
    (hroom : store.Roomy keys first last shelf) (hext : Path.IsPart store.extension)
    (hapart : ∀ other ∈ keys, key.Apart other) (hkey : key ∈ keys)
    (hfinds : store.Finds key shelf.disk) : store.Roomy keys first last shelf' := by
  cases hf : shelf.disk.isFile (store.pathFor key) with
  | true =>
      obtain ⟨-, rfl, -⟩ := h.eq_of_isFile hf
      exact ⟨hroom.begun, hroom.left, hroom.fits⟩
  | false =>
      have hkeeps : ∀ other ∈ keys, shelf.disk.isFile (store.pathFor other) = true →
          shelf'.disk.isFile (store.pathFor other) = true := by
        intro other hother hthere
        obtain ⟨content, hholds⟩ := Disk.isFile_iff.mp hthere
        exact (h.holds hext (hapart other hother) hholds).isFile
      obtain ⟨-, disk, hr, -, hends⟩ := h.of_canStore hext hfinds (hroom.canStore hext hkey R) hf
      obtain ⟨made, hmade, htouch⟩ := reserve_eq_ok_iff.mp hr
      have hlock := (Disk.holds_of_touch htouch).1
      rcases hends with ⟨content, written, -, -, rfl, hw⟩ | ⟨failure, -, -, rfl⟩
      · obtain ⟨hwrites, hholds, -, htemporaries⟩ := writeWhole_eq_ok hw
        refine hroom.step hext hkeeps hmade
          ((hlock.mono (List.subset_append_left _ _)).trans
            (hwrites.mono (List.subset_append_right _ _))) ?_
          (.inr ⟨htemporaries, mem_absentees_iff.mpr ⟨hkey, hf⟩, hholds.isFile⟩)
        intro place hplace
        rcases List.mem_append.mp hplace with hmem | hmem
        · rw [List.mem_singleton.mp hmem]
          exact ⟨_, place_sibling hext key isPart_lockSuffix⟩
        · rcases List.mem_cons.mp hmem with rfl | hmem
          · exact ⟨_, place_sibling hext key (isPart_temporarySuffix store.process _)⟩
          · rw [List.mem_singleton.mp hmem]
            exact ⟨_, place_pathFor hext key⟩
      · refine hroom.step hext hkeeps hmade hlock ?_ (.inl rfl)
        intro place hplace
        rw [List.mem_singleton.mp hplace]
        exact ⟨_, place_sibling hext key isPart_lockSuffix⟩

/-- On every shelf that a store comes to there is room for what is absent. -/
theorem Reached.roomy {first last : Nat} (h : store.Reached R keys start shelf)
    (hroom : store.Roomy keys first last start) (hext : Path.IsPart store.extension)
    (hapart : ∀ key ∈ keys, ∀ other ∈ keys, key.Apart other)
    (hfinds : ∀ key ∈ keys, store.Finds key start.disk) : store.Roomy keys first last shelf := by
  induction h with
  | start => exact hroom
  | @ensure S key generate shelf shelf' state state' result hreached hkey hensures ih =>
      exact hensures.roomy ih hext (hapart key hkey) hkey
        (hreached.finds hext (fun other hother => hapart other hother key hkey) (hfinds key hkey))

end Store

end Soundstage
