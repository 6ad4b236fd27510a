import Soundstage.Proofs.Asset.Ensure
import Soundstage.Proofs.Asset.Naming

/-!
# The files of a store are found

A file that stands at the place of an asset is found by the path of the asset, `Store.Finds`, unless
it was there before the first call, below a root whose own folders were not. No call to the store
changes this, and no call touches the file of another asset.
-/

namespace Soundstage

variable {R σ : Type}

namespace Store

/-- A file that stands at the place of an asset is found by the path of the asset. -/
def Finds (store : Store) (key : AssetKey) (disk : Disk) : Prop :=
  ∀ content, disk.get? (Path.place (store.pathFor key)) = some (.file content) →
    disk.read (store.pathFor key) = .ok content

variable {store : Store} {key other : AssetKey} {shelf shelf' : Shelf} {state state' : σ}
  {generate : σ → Except (Failure R) ByteArray × σ} {result : Except (Failure R) String}

theorem place_not_mem_scratch (hext : Path.IsPart store.extension) (key other : AssetKey)
    (n : Nat) : Path.place (store.pathFor other) ∉ store.scratch key n := by
  intro h
  rcases List.mem_cons.mp h with h | h
  · rw [lockPath_eq, place_sibling hext key isPart_lockSuffix] at h
    exact place_pathFor_ne_beside hext (by decide) h
  · rw [List.mem_singleton, temporaryPath_eq,
      place_sibling hext key (isPart_temporarySuffix store.process n)] at h
    exact place_pathFor_ne_beside hext (temporarySuffix_ne_empty store.process n) h

theorem Finds.isFile_of_get? {disk : Disk} (h : store.Finds key disk) {content : ByteArray}
    (hg : disk.get? (Path.place (store.pathFor key)) = some (.file content)) :
    disk.isFile (store.pathFor key) = true :=
  (Disk.read_eq_ok_iff.mp (h content hg)).isFile

/-- What is found is not hidden. -/
theorem finds_of_isFile {disk : Disk} (h : disk.isFile (store.pathFor key) = true) :
    store.Finds key disk := by
  obtain ⟨found, hholds⟩ := Disk.isFile_iff.mp h
  intro content hg
  have hsame := hholds.2.1.symm.trans hg
  cases hsame
  exact hholds.read

/-- Where nothing is, nothing is hidden. -/
theorem finds_empty (hext : Path.IsPart store.extension) (key : AssetKey) :
    store.Finds key {} := by
  intro content hg
  rw [place_pathFor hext, beside, Disk.get?_empty (Place.names_child_ne_nil _ _)] at hg
  cases hg

/-- Where touched places are elsewhere, the files of an asset that are found are the same. -/
theorem Finds.read_eq_ok_iff {disk disk' : Disk} {touched : List Place}
    (h : store.Finds key disk) (hchanges : disk.Changes disk' touched)
    (hplace : Path.place (store.pathFor key) ∉ touched) (content : ByteArray) :
    disk'.read (store.pathFor key) = .ok content ↔ disk.read (store.pathFor key) = .ok content := by
  constructor
  · intro hread
    have hholds := Disk.read_eq_ok_iff.mp hread
    exact h content ((hchanges.get?_eq_file_iff hplace).mp hholds.2.1)
  · intro hread
    exact (hchanges.holds hplace (Disk.read_eq_ok_iff.mp hread)).read

theorem Finds.of_changes {disk disk' : Disk} {touched : List Place} (h : store.Finds key disk)
    (hchanges : disk.Changes disk' touched)
    (hplace : Path.place (store.pathFor key) ∉ touched) : store.Finds key disk' := by
  intro content hg
  rw [h.read_eq_ok_iff hchanges hplace]
  exact h content ((hchanges.get?_eq_file_iff hplace).mp hg)

/-- A call touches no place of another asset. -/
theorem Ensures.changes_other (h : store.Ensures key generate shelf state result shelf' state')
    (hext : Path.IsPart store.extension) (hapart : key.Apart other) (hne : other ≠ key) :
    ∃ touched, shelf.disk.Changes shelf'.disk touched ∧
      Path.place (store.pathFor other) ∉ touched := by
  have hscratch := place_not_mem_scratch hext key other shelf.temporaries
  rcases h.changes with hchanges | ⟨content, -, -, -, -, hchanges⟩
  · exact ⟨_, hchanges, hscratch⟩
  · refine ⟨_, hchanges, ?_⟩
    intro hmem
    rcases List.mem_cons.mp hmem with heq | hmem
    · exact place_pathFor_ne hext hapart hne heq
    · exact hscratch hmem

/-- No call hides the file of an asset. -/
theorem Ensures.finds (h : store.Ensures key generate shelf state result shelf' state')
    (hext : Path.IsPart store.extension) (hapart : key.Apart other)
    (hfinds : store.Finds other shelf.disk) : store.Finds other shelf'.disk := by
  by_cases heq : other = key
  · subst heq
    rcases h.changes with hchanges | ⟨content, -, -, -, hholds, -⟩
    · exact hfinds.of_changes hchanges (place_not_mem_scratch hext _ _ _)
    · exact finds_of_isFile hholds.isFile
  · obtain ⟨touched, hchanges, hplace⟩ := h.changes_other hext hapart heq
    exact hfinds.of_changes hchanges hplace

/-- No call changes the file of an asset that is there, not even a call for the asset itself. -/
theorem Ensures.holds (h : store.Ensures key generate shelf state result shelf' state')
    (hext : Path.IsPart store.extension) (hapart : key.Apart other) {content : ByteArray}
    (hholds : shelf.disk.Holds (store.pathFor other) content) :
    shelf'.disk.Holds (store.pathFor other) content := by
  by_cases heq : other = key
  · subst heq
    obtain ⟨-, rfl, -⟩ := h.eq_of_isFile hholds.isFile
    exact hholds
  · obtain ⟨touched, hchanges, hplace⟩ := h.changes_other hext hapart heq
    exact hchanges.holds hplace hholds

/-- Making the folder and the lock file of an asset does not bring the asset up. -/
theorem isFile_of_reserve {disk : Disk} (hext : Path.IsPart store.extension)
    (hfinds : store.Finds key shelf.disk)
    (hr : store.reserve (store.pathFor key) shelf.disk
      = ((.ok (), disk) : Except (Failure R) Unit × Disk))
    (hf : disk.isFile (store.pathFor key) = true) :
    shelf.disk.isFile (store.pathFor key) = true := by
  obtain ⟨content, hholds⟩ := Disk.isFile_iff.mp hf
  have hplace : Path.place (store.pathFor key) ∉ [Path.place (lockPath (store.pathFor key))] :=
    fun hmem => place_not_mem_scratch hext key key 0
      (List.mem_cons.mpr (.inl (List.mem_singleton.mp hmem)))
  exact hfinds.isFile_of_get?
    (((changes_reserve hr).get?_eq_file_iff hplace).mp hholds.2.1)

end Store

/-- A phrase that is spoken. -/
def greeting : AssetKey := ⟨.voice, "Hello"⟩

/-- Another one. -/
def farewell : AssetKey := ⟨.voice, "Bye"⟩

/-- A root below a folder that is missing and that the root leaves again: the file of the asset is
there, but its path does not lead to it. -/
def hidingStore : Store := ⟨"a/../b", "opus", 7⟩

/-- The file that is hidden. -/
def hiddenShelf : Shelf where
  disk := ((({} : Disk).put ⟨.above 0, ["b"]⟩ .folder).put ⟨.above 0, ["b", "voice"]⟩ .folder).put
    ⟨.above 0, ["b", "voice", greeting.fileName "opus"]⟩ (.file ⟨#[1]⟩)

/-- A folder stands where the greeting belongs. -/
def blockedDisk : Disk :=
  ((({} : Disk).put ⟨.above 0, ["cache"]⟩ .folder).put ⟨.above 0, ["cache", "voice"]⟩ .folder).put
    ⟨.above 0, ["cache", "voice", greeting.fileName "opus"]⟩ .folder

/-- An extension that leaves the folder of the asset: all assets have one file. -/
def sharingStore : Store := ⟨"cache", "a/../../x", 7⟩

/-- The folders that the paths of two such assets lead through. -/
def sharedShelf : Shelf where
  disk := (((({} : Disk).put ⟨.above 0, ["cache"]⟩ .folder).put
    ⟨.above 0, ["cache", "voice"]⟩ .folder).put
    ⟨.above 0, ["cache", "voice", greeting.fileName "a"]⟩ .folder).put
    ⟨.above 0, ["cache", "voice", farewell.fileName "a"]⟩ .folder

end Soundstage
