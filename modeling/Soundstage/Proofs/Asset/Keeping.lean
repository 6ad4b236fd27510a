import Soundstage.Asset.Store
import Soundstage.Proofs.Disk.Changes

/-!
# What making a file does to the disk

Before a caller generates it makes the folder and the lock file of the asset; afterwards it writes a
temporary file and moves it into place. Each of these touches its own places only, whether it
succeeds or fails, and what has been reserved once stays reserved.
-/

namespace Soundstage

variable {R : Type}

namespace Store

variable {store other : Store} {path temporary : String} {content : ByteArray}
  {disk disk' later : Disk} {failure : Failure R} {shelf shelf' : Shelf}

/-- The folder that is made for a file. -/
def folderOf (store : Store) (path : String) : String := (Path.parent? path).getD store.root

theorem writes_discard (path : String) (disk : Disk) :
    disk.Writes (discard path disk) [Path.place path] := by
  unfold discard
  split
  · next removed hremoved => exact Disk.writes_of_remove hremoved
  · exact .refl _ _

theorem reserve_eq_ok_iff :
    store.reserve path disk = ((.ok (), disk') : Except (Failure R) Unit × Disk) ↔
      ∃ made, disk.makeFolders (store.folderOf path) = (.ok (), made) ∧
        made.touch (lockPath path) = .ok disk' := by
  simp only [reserve, folderOf]
  split
  · next fault made hmade => simp [hmade]
  · next made hmade =>
      split
      · next fault htouch => simp [hmade, htouch]
      · next touched htouch => simp [hmade, htouch]

/-- Reserving is the same in all stores with one root. -/
theorem reserve_congr (h : other.root = store.root) :
    (other.reserve path disk : Except (Failure R) Unit × Disk) = store.reserve path disk := by
  simp only [reserve, h]

/-- Reserving makes folders and at most the lock file. -/
theorem changes_reserve {result : Except (Failure R) Unit}
    (h : store.reserve path disk = (result, disk')) :
    disk.Changes disk' [Path.place (lockPath path)] := by
  have hadds := disk.addsFolders_makeFolders (store.folderOf path)
  simp only [reserve] at h
  split at h
  · next fault made hmade =>
      rw [folderOf, hmade] at hadds
      cases h
      exact hadds.changes _
  · next made hmade =>
      rw [folderOf, hmade] at hadds
      split at h
      · cases h
        exact hadds.changes _
      · next touched htouch =>
          cases h
          exact (hadds.changes _).trans (Disk.holds_of_touch htouch).1.changes

/-- The lock file is there once it has been made. -/
theorem holds_lock_of_reserve
    (h : store.reserve path disk = ((.ok (), disk') : Except (Failure R) Unit × Disk)) :
    ∃ content, disk'.Holds (lockPath path) content := by
  obtain ⟨made, -, htouch⟩ := reserve_eq_ok_iff.mp h
  exact (Disk.holds_of_touch htouch).2

/-- Reserving once more has nothing to do, for any caller that shares the folder, as long as no
folder has gone and the lock file is there. -/
theorem reserve_again
    (h : store.reserve path disk = ((.ok (), disk') : Except (Failure R) Unit × Disk))
    (hroot : other.root = store.root) (hkeeps : disk'.KeepsFolders later)
    (hlock : later.Holds (lockPath path) content) :
    other.reserve path later = ((.ok (), later) : Except (Failure R) Unit × Disk) := by
  obtain ⟨made, hmade, htouch⟩ := reserve_eq_ok_iff.mp h
  rw [reserve_congr hroot, reserve_eq_ok_iff]
  refine ⟨later, ?_, hlock.touch⟩
  have hok : (disk.makeFolders (store.folderOf path)).1 = .ok () := by rw [hmade]
  refine Disk.makeFolders_again hok ?_
  rw [hmade]
  exact (Disk.holds_of_touch htouch).1.keeps.trans hkeeps

theorem writeTemporary_eq_ok
    (h : writeTemporary temporary content disk
      = ((.ok (), disk') : Except (Failure R) Unit × Disk)) :
    disk.Writes disk' [Path.place temporary] ∧ disk'.Holds temporary content := by
  unfold writeTemporary at h
  split at h
  · cases h
  · next written hwritten =>
      cases h
      exact Disk.holds_of_write hwritten

theorem writeTemporary_eq_error
    (h : writeTemporary temporary content disk = (.error failure, disk')) :
    disk.Writes disk' [Path.place temporary] := by
  unfold writeTemporary at h
  split at h
  · cases h
    exact writes_discard temporary disk
  · cases h

theorem moveIntoPlace_eq_ok
    (h : moveIntoPlace temporary path disk
      = ((.ok (), disk') : Except (Failure R) Unit × Disk)) :
    disk.Writes disk' [Path.place temporary, Path.place path] ∧
      ∃ content, disk.Holds temporary content ∧ disk'.Holds path content := by
  unfold moveIntoPlace at h
  split at h
  · cases h
  · next moved hmoved =>
      cases h
      exact Disk.holds_of_rename hmoved

theorem moveIntoPlace_eq_error
    (h : moveIntoPlace temporary path disk = (.error failure, disk')) :
    disk.Writes disk' [Path.place temporary] := by
  unfold moveIntoPlace at h
  split at h
  · cases h
    exact writes_discard temporary disk
  · cases h

/-- A file that has been written as a whole is found with all its bytes. -/
theorem writeWhole_eq_ok
    (h : store.writeWhole path content shelf
      = ((.ok (), shelf') : Except (Failure R) Unit × Shelf)) :
    shelf.disk.Writes shelf'.disk
        [Path.place (store.temporaryPath path shelf.temporaries), Path.place path] ∧
      shelf'.disk.Holds path content ∧ shelf'.stats = shelf.stats ∧
      shelf'.temporaries = shelf.temporaries + 1 := by
  simp only [writeWhole] at h
  split at h
  · cases h
  · next written hwritten =>
      obtain ⟨hwrites, hholds⟩ := writeTemporary_eq_ok hwritten
      match hmove : (moveIntoPlace (store.temporaryPath path shelf.temporaries) path written :
          Except (Failure R) Unit × Disk) with
      | (.error failure, moved) =>
          rw [hmove] at h
          cases h
      | (.ok (), moved) =>
          rw [hmove] at h
          cases h
          obtain ⟨hwrites', moved', hholds', hmoved⟩ := moveIntoPlace_eq_ok hmove
          obtain rfl := hholds.eq hholds'
          exact ⟨(hwrites.of_first _).trans hwrites', hmoved, rfl, rfl⟩

/-- A file that could not be written leaves the file at its path as it was. -/
theorem writeWhole_eq_error
    (h : store.writeWhole path content shelf = (.error failure, shelf')) :
    shelf.disk.Writes shelf'.disk
        [Path.place (store.temporaryPath path shelf.temporaries)] ∧
      shelf'.stats = shelf.stats ∧ shelf'.temporaries = shelf.temporaries + 1 := by
  simp only [writeWhole] at h
  split at h
  · next failure' written hwritten =>
      cases h
      exact ⟨writeTemporary_eq_error hwritten, rfl, rfl⟩
  · next written hwritten =>
      obtain ⟨hwrites, -⟩ := writeTemporary_eq_ok hwritten
      match hmove : (moveIntoPlace (store.temporaryPath path shelf.temporaries) path written :
          Except (Failure R) Unit × Disk) with
      | (.error failure', moved) =>
          rw [hmove] at h
          cases h
          exact ⟨hwrites.trans (moveIntoPlace_eq_error hmove), rfl, rfl⟩
      | (.ok (), moved) =>
          rw [hmove] at h
          cases h

/-- Whether a file can be written as a whole does not depend on its bytes. -/
theorem writeWhole_isOk_iff :
    (store.writeWhole path content shelf : Except (Failure R) Unit × Shelf).1 = .ok () ↔
      (shelf.disk.Reaches (store.temporaryPath path shelf.temporaries) ∧
        Path.endsOpen (Path.parts (store.temporaryPath path shelf.temporaries)) = false ∧
        shelf.disk.get? (Path.place (store.temporaryPath path shelf.temporaries))
          ≠ some .folder) ∧
      shelf.disk.Reaches path ∧ Path.endsInName path = true ∧
        Path.endsOpen (Path.parts path) = false ∧
        shelf.disk.get? (Path.place path) ≠ some .folder := by
  constructor
  · intro h
    simp only [writeWhole] at h
    cases hw : shelf.disk.write (store.temporaryPath path shelf.temporaries) content with
    | error fault =>
        simp only [writeTemporary, hw] at h
        cases h
    | ok written =>
        obtain ⟨hr, hopen, hfree, -⟩ := Disk.write_eq_ok_iff.mp hw
        have hwrites := (Disk.holds_of_write hw).1
        simp only [writeTemporary, hw, moveIntoPlace] at h
        cases hm : written.rename (store.temporaryPath path shelf.temporaries) path with
        | error fault =>
            simp only [hm] at h
            cases h
        | ok moved =>
            obtain ⟨hr', hname, hopen', hfree', -⟩ := Disk.rename_eq_ok_iff.mp hm
            exact ⟨⟨hr, hopen, hfree⟩, (hwrites.reaches_iff path).mp hr', hname, hopen',
              fun hg => hfree' ((hwrites.folders _).mpr hg)⟩
  · rintro ⟨⟨hr, hopen, hfree⟩, hr', hname, hopen', hfree'⟩
    have hw : shelf.disk.write (store.temporaryPath path shelf.temporaries) content = .ok _ :=
      Disk.write_eq_ok_iff.mpr ⟨hr, hopen, hfree, rfl⟩
    obtain ⟨hwrites, hholds⟩ := Disk.holds_of_write hw
    have hm := Disk.rename_eq_ok_iff.mpr ⟨(hwrites.reaches_iff path).mpr hr', hname, hopen',
      fun hg => hfree' ((hwrites.folders _).mp hg), content, hholds, rfl⟩
    simp only [writeWhole, writeTemporary, hw, moveIntoPlace, hm]

end Store

end Soundstage
