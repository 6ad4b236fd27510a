import Soundstage.Proofs.Disk.Target

/-!
# What the operations do to the view

Each operation that succeeds has changed the view of the disk at the place of its path and nowhere
else. Making folders adds folders where nothing stood. No operation takes a folder away, so every
one of them keeps the folders, and what a path led to before it leads to afterwards.
-/

namespace Soundstage

namespace Disk

variable {disk disk' : Disk} {path : String} {content : ByteArray}

theorem look_eq_ok_iff {entry : Entry} :
    disk.look path = .ok entry ↔ disk.Reaches path ∧ disk.get? (Path.place path) = some entry ∧
      (entry = .folder ∨ Path.endsOpen (Path.parts path) = false) := by
  by_cases hr : disk.Reaches path
  · unfold look
    rw [hr.locate]
    simp only [bind, Except.bind, hr, true_and]
    cases hg : disk.get? (Path.place path) with
    | none => simp
    | some found =>
        cases found with
        | folder => cases entry <;> simp
        | file content =>
            cases hopen : Path.endsOpen (Path.parts path) <;> cases entry <;> simp
  · obtain ⟨fault, hl⟩ := locate_of_not_reaches hr
    unfold look
    rw [hl]
    simp [bind, Except.bind, hr]

/-- A path leads to the file that stands at its place. -/
def Holds (disk : Disk) (path : String) (content : ByteArray) : Prop :=
  disk.Reaches path ∧ disk.get? (Path.place path) = some (.file content) ∧
    Path.endsOpen (Path.parts path) = false

theorem look_eq_file_iff : disk.look path = .ok (.file content) ↔ disk.Holds path content := by
  rw [look_eq_ok_iff]
  simp [Holds]

theorem isFile_iff : disk.isFile path = true ↔ ∃ content, disk.Holds path content := by
  simp only [← look_eq_file_iff, isFile]
  split
  · next content h => simp [h]
  · next h => simpa using h

theorem isFolder_iff : disk.isFolder path = true ↔
    disk.Reaches path ∧ disk.get? (Path.place path) = some .folder := by
  have hlook : disk.isFolder path = true ↔ disk.look path = .ok .folder := by
    unfold isFolder
    split
    · next h => simp [h]
    · next h => simpa using h
  rw [hlook, look_eq_ok_iff]
  simp

theorem read_eq_ok_iff : disk.read path = .ok content ↔ disk.Holds path content := by
  rw [← look_eq_file_iff]
  unfold read
  cases h : disk.look path with
  | error fault => simp [bind, Except.bind]
  | ok entry => cases entry <;> simp [bind, Except.bind]

theorem Holds.read (h : disk.Holds path content) : disk.read path = .ok content :=
  read_eq_ok_iff.mpr h

theorem Holds.isFile (h : disk.Holds path content) : disk.isFile path = true :=
  isFile_iff.mpr ⟨content, h⟩

/-- Only an anchor has no name, and anchors are folders. -/
theorem names_ne_nil (disk : Disk) {place : Place} (h : disk.get? place ≠ some .folder) :
    place.names ≠ [] :=
  fun hn => h (disk.get?_of_names_eq_nil hn)

theorem listing_get?_empty (names : List String) :
    Listing.empty.get? names = none := by
  induction names with
  | nil => rfl
  | cons name rest ih =>
      cases rest with
      | nil => rfl
      | cons next rest => exact ih

/-- Nothing but the anchors stands on an empty disk. -/
theorem get?_empty {place : Place} (h : place.names ≠ []) : ({} : Disk).get? place = none := by
  rw [get?_eq_listing _ h]
  exact listing_get?_empty place.names

theorem writable_eq_ok {place : Place} {old : Option ByteArray}
    (h : disk.writable path = .ok (place, old)) :
    disk.Reaches path ∧ Path.endsOpen (Path.parts path) = false ∧ place = Path.place path ∧
      disk.get? place = old.map .file := by
  by_cases hr : disk.Reaches path
  · unfold writable at h
    rw [hr.locate] at h
    simp only [bind, Except.bind] at h
    split at h
    · cases h
    · next found hg =>
        split at h
        · cases h
        · next hopen =>
            cases h
            exact ⟨hr, by simpa using hopen, rfl, hg⟩
    · next hg =>
        split at h
        · cases h
        · next hopen =>
            cases h
            exact ⟨hr, by simpa using hopen, rfl, hg⟩
  · obtain ⟨fault, hl⟩ := locate_of_not_reaches hr
    unfold writable at h
    rw [hl] at h
    cases h

/-- What can be opened for writing: no folder stands there. -/
theorem writable_of_reaches (hr : disk.Reaches path)
    (hopen : Path.endsOpen (Path.parts path) = false)
    (hg : disk.get? (Path.place path) ≠ some .folder) :
    ∃ old, disk.writable path = .ok (Path.place path, old) ∧
      disk.get? (Path.place path) = old.map .file := by
  unfold writable
  rw [hr.locate]
  simp only [bind, Except.bind, hopen]
  cases he : disk.get? (Path.place path) with
  | none => exact ⟨none, rfl, rfl⟩
  | some entry =>
      cases entry with
      | folder => exact absurd he hg
      | file content => exact ⟨some content, rfl, rfl⟩

theorem write_eq_ok_iff : disk.write path content = .ok disk' ↔
    disk.Reaches path ∧ Path.endsOpen (Path.parts path) = false ∧
      disk.get? (Path.place path) ≠ some .folder ∧
      disk' = disk.put (Path.place path) (.file content) := by
  constructor
  · intro h
    unfold write at h
    cases hw : disk.writable path with
    | error fault =>
        rw [hw] at h
        cases h
    | ok found =>
        obtain ⟨place, old⟩ := found
        rw [hw] at h
        obtain ⟨hr, hopen, rfl, hg⟩ := writable_eq_ok hw
        cases h
        exact ⟨hr, hopen, by cases old <;> simp [hg], rfl⟩
  · rintro ⟨hr, hopen, hg, rfl⟩
    obtain ⟨old, hw, -⟩ := writable_of_reaches hr hopen hg
    unfold write
    rw [hw]
    rfl

theorem touch_eq_ok_iff : disk.touch path = .ok disk' ↔
    disk.Reaches path ∧ Path.endsOpen (Path.parts path) = false ∧
      ((∃ content, disk.get? (Path.place path) = some (.file content)) ∧ disk' = disk ∨
        disk.get? (Path.place path) = none ∧
          disk' = disk.put (Path.place path) (.file .empty)) := by
  constructor
  · intro h
    unfold touch at h
    cases hw : disk.writable path with
    | error fault =>
        rw [hw] at h
        cases h
    | ok found =>
        obtain ⟨place, old⟩ := found
        rw [hw] at h
        obtain ⟨hr, hopen, rfl, hg⟩ := writable_eq_ok hw
        refine ⟨hr, hopen, ?_⟩
        cases old with
        | none =>
            cases h
            exact .inr ⟨hg, rfl⟩
        | some content =>
            cases h
            exact .inl ⟨⟨content, hg⟩, rfl⟩
  · rintro ⟨hr, hopen, ⟨⟨content, hg⟩, rfl⟩ | ⟨hg, rfl⟩⟩
    · obtain ⟨old, hw, hold⟩ := writable_of_reaches hr hopen (by simp [hg])
      rw [hg] at hold
      unfold touch
      rw [hw]
      cases old with
      | none => cases hold
      | some content => rfl
    · obtain ⟨old, hw, hold⟩ := writable_of_reaches hr hopen (by simp [hg])
      rw [hg] at hold
      unfold touch
      rw [hw]
      cases old with
      | none => rfl
      | some content => cases hold

/-- A file can be made sure of unless a folder stands in its place. -/
theorem exists_touch (hr : disk.Reaches path) (hopen : Path.endsOpen (Path.parts path) = false)
    (hfree : disk.get? (Path.place path) ≠ some .folder) :
    ∃ disk', disk.touch path = .ok disk' := by
  cases hg : disk.get? (Path.place path) with
  | none => exact ⟨_, touch_eq_ok_iff.mpr ⟨hr, hopen, .inr ⟨hg, rfl⟩⟩⟩
  | some entry =>
      cases entry with
      | folder => exact absurd hg hfree
      | file content => exact ⟨_, touch_eq_ok_iff.mpr ⟨hr, hopen, .inl ⟨⟨content, hg⟩, rfl⟩⟩⟩

theorem remove_eq_ok (h : disk.remove path = .ok disk') :
    (∃ content, disk.Holds path content) ∧ disk' = disk.erase (Path.place path) := by
  by_cases hr : disk.Reaches path
  · unfold remove at h
    rw [hr.locate] at h
    simp only [bind, Except.bind] at h
    split at h
    · cases h
    · cases h
    · next content hg =>
        split at h
        · cases h
        · next hopen =>
            cases h
            exact ⟨⟨content, hr, hg, by simpa using hopen⟩, rfl⟩
  · obtain ⟨fault, hl⟩ := locate_of_not_reaches hr
    unfold remove at h
    rw [hl] at h
    cases h

/-- A file that is found can be removed. -/
theorem Holds.remove (h : disk.Holds path content) :
    disk.remove path = .ok (disk.erase (Path.place path)) := by
  obtain ⟨hr, hg, hopen⟩ := h
  unfold Disk.remove
  rw [hr.locate]
  simp [bind, Except.bind, hg, hopen]

theorem rename_eq_ok_iff {goal : String} : disk.rename path goal = .ok disk' ↔
    disk.Reaches goal ∧ Path.endsInName goal = true ∧
      Path.endsOpen (Path.parts goal) = false ∧ disk.get? (Path.place goal) ≠ some .folder ∧
      ∃ content, disk.Holds path content ∧
        disk' = (disk.erase (Path.place path)).put (Path.place goal) (.file content) := by
  by_cases hr : disk.Reaches path
  · by_cases hr' : disk.Reaches goal
    · unfold rename
      rw [hr.locate, hr'.locate]
      simp only [bind, Except.bind]
      by_cases hname : Path.endsInName goal = true
      · cases hread : disk.read path with
        | error fault =>
            have hno : ∀ content, ¬ disk.Holds path content := by
              intro content hc
              rw [hc.read] at hread
              cases hread
            simp [hname, hno]
        | ok content =>
            have hholds := read_eq_ok_iff.mp hread
            have huniq : ∀ other, disk.Holds path other ↔ other = content := by
              intro other
              rw [← read_eq_ok_iff, hread]
              simp [eq_comm]
            cases hopen : Path.endsOpen (Path.parts goal) with
            | true => simp [hname]
            | false =>
                cases hg : disk.get? (Path.place goal) with
                | none => simp [hname, hr', huniq, eq_comm]
                | some entry => cases entry <;> simp [hname, hr', huniq, eq_comm]
      · simp [hname]
    · obtain ⟨fault, hl⟩ := locate_of_not_reaches hr'
      unfold rename
      rw [hr.locate, hl]
      simp [bind, Except.bind, hr']
  · obtain ⟨fault, hl⟩ := locate_of_not_reaches hr
    unfold rename
    rw [hl]
    simp [bind, Except.bind, Holds, hr]

theorem makeFolder_eq_ok (h : disk.makeFolder path = .ok disk') :
    disk.Reaches path ∧ disk.get? (Path.place path) = none ∧
      disk' = disk.put (Path.place path) .folder := by
  by_cases hr : disk.Reaches path
  · unfold makeFolder at h
    rw [hr.locate] at h
    simp only [bind, Except.bind] at h
    split at h
    · cases h
    · next hg =>
        cases h
        exact ⟨hr, hg, rfl⟩
  · obtain ⟨fault, hl⟩ := locate_of_not_reaches hr
    unfold makeFolder at h
    rw [hl] at h
    cases h

theorem makeFolder_of_reaches (hr : disk.Reaches path) (hg : disk.get? (Path.place path) = none) :
    disk.makeFolder path = .ok (disk.put (Path.place path) .folder) := by
  unfold makeFolder
  rw [hr.locate]
  simp [bind, Except.bind, hg]

/-- A folder that is missing on the way is the fault of a path that leads nowhere. -/
theorem not_reaches_of_makeFolder (h : disk.makeFolder path = .error .notFound) :
    ¬ disk.Reaches path := by
  intro hr
  unfold makeFolder at h
  rw [hr.locate] at h
  simp only [bind, Except.bind] at h
  split at h <;> cases h

end Disk

end Soundstage
