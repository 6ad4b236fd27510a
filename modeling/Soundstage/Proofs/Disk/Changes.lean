import Soundstage.Proofs.Disk.Folders

/-!
# What stays where it is

Two bounds on what operations do to the view. `Disk.Writes`: they touch files at the given places,
everything else is as it was. `Disk.Changes`: elsewhere they may also put folders where nothing
stood. Under either bound a file at any other place stays as it is, and no file appears there. The
bounds add up along several operations.
-/

namespace Soundstage

namespace Disk

variable {disk disk' disk'' : Disk} {path : String} {content : ByteArray}
  {touched touched' : List Place}

/-- All folders stay, and apart from the touched places only folders appear, where nothing stood. -/
structure Changes (disk disk' : Disk) (touched : List Place) : Prop where
  keeps : disk.KeepsFolders disk'
  elsewhere : ∀ place ∉ touched, disk'.get? place = disk.get? place ∨
    disk.get? place = none ∧ disk'.get? place = some .folder

/-- The folders are the same, and nothing has changed but at the touched places. -/
structure Writes (disk disk' : Disk) (touched : List Place) : Prop where
  folders : ∀ place, disk'.get? place = some .folder ↔ disk.get? place = some .folder
  elsewhere : ∀ place ∉ touched, disk'.get? place = disk.get? place

namespace Changes

theorem refl (disk : Disk) (touched : List Place) : disk.Changes disk touched where
  keeps := .refl disk
  elsewhere := fun _ _ => .inl rfl

theorem trans (h : disk.Changes disk' touched) (h' : disk'.Changes disk'' touched) :
    disk.Changes disk'' touched where
  keeps := h.keeps.trans h'.keeps
  elsewhere := by
    intro place hplace
    rcases h.elsewhere place hplace with h1 | ⟨h1, h2⟩ <;>
      rcases h'.elsewhere place hplace with h3 | ⟨h3, h4⟩
    · exact .inl (h3.trans h1)
    · exact .inr ⟨h1 ▸ h3, h4⟩
    · exact .inr ⟨h1, h3.trans h2⟩
    · rw [h2] at h3
      cases h3

theorem mono (h : disk.Changes disk' touched) (hsub : touched ⊆ touched') :
    disk.Changes disk' touched' where
  keeps := h.keeps
  elsewhere := fun place hplace => h.elsewhere place fun hmem => hplace (hsub hmem)

theorem of_first {first : Place} (h : disk.Changes disk' [first]) (second : Place) :
    disk.Changes disk' [first, second] :=
  h.mono (List.cons_subset_cons first (List.nil_subset _))

theorem of_second {second : Place} (h : disk.Changes disk' [second]) (first : Place) :
    disk.Changes disk' [first, second] :=
  h.mono (List.subset_cons_self first [second])

/-- Elsewhere the files are those that there were. -/
theorem get?_eq_file_iff (h : disk.Changes disk' touched) {place : Place}
    (hplace : place ∉ touched) :
    disk'.get? place = some (.file content) ↔ disk.get? place = some (.file content) := by
  rcases h.elsewhere place hplace with h1 | ⟨h1, h2⟩
  · rw [h1]
  · simp [h1, h2]

/-- A file that is found is found again unless its place is touched. -/
theorem holds (h : disk.Changes disk' touched) (hplace : Path.place path ∉ touched)
    (hf : disk.Holds path content) : disk'.Holds path content :=
  ⟨hf.1.mono h.keeps, (h.get?_eq_file_iff hplace).mpr hf.2.1, hf.2.2⟩

end Changes

namespace Writes

theorem refl (disk : Disk) (touched : List Place) : disk.Writes disk touched where
  folders := fun _ => Iff.rfl
  elsewhere := fun _ _ => rfl

theorem trans (h : disk.Writes disk' touched) (h' : disk'.Writes disk'' touched) :
    disk.Writes disk'' touched where
  folders := fun place => (h'.folders place).trans (h.folders place)
  elsewhere := fun place hplace => (h'.elsewhere place hplace).trans (h.elsewhere place hplace)

theorem mono (h : disk.Writes disk' touched) (hsub : touched ⊆ touched') :
    disk.Writes disk' touched' where
  folders := h.folders
  elsewhere := fun place hplace => h.elsewhere place fun hmem => hplace (hsub hmem)

theorem of_first {first : Place} (h : disk.Writes disk' [first]) (second : Place) :
    disk.Writes disk' [first, second] :=
  h.mono (List.cons_subset_cons first (List.nil_subset _))

theorem of_second {second : Place} (h : disk.Writes disk' [second]) (first : Place) :
    disk.Writes disk' [first, second] :=
  h.mono (List.subset_cons_self first [second])

theorem keeps (h : disk.Writes disk' touched) : disk.KeepsFolders disk' :=
  fun place => (h.folders place).mpr

theorem changes (h : disk.Writes disk' touched) : disk.Changes disk' touched where
  keeps := h.keeps
  elsewhere := fun place hplace => .inl (h.elsewhere place hplace)

/-- A path leads somewhere exactly if it did before. -/
theorem reaches_iff (h : disk.Writes disk' touched) (path : String) :
    disk'.Reaches path ↔ disk.Reaches path :=
  ⟨.mono fun place => (h.folders place).mp, .mono h.keeps⟩

/-- A file is found exactly if it was found before, unless its place is touched. -/
theorem holds_iff (h : disk.Writes disk' touched) (hplace : Path.place path ∉ touched) :
    disk'.Holds path content ↔ disk.Holds path content := by
  unfold Holds
  rw [h.reaches_iff, h.elsewhere _ hplace]

theorem isFile_eq (h : disk.Writes disk' touched) (hplace : Path.place path ∉ touched) :
    disk'.isFile path = disk.isFile path := by
  rw [Bool.eq_iff_iff, isFile_iff, isFile_iff]
  simp only [h.holds_iff hplace]

end Writes

theorem AddsFolders.changes (h : disk.AddsFolders disk') (touched : List Place) :
    disk.Changes disk' touched where
  keeps := h.keepsFolders
  elsewhere := fun place _ => h place

theorem writes_set {place : Place} (h : disk.get? place ≠ some .folder) {entry : Option Entry}
    (he : entry ≠ some .folder) : disk.Writes (disk.set place entry) [place] where
  folders := by
    intro other
    by_cases ho : other = place
    · subst ho
      simp [disk.get?_set entry (disk.names_ne_nil h), h, he]
    · rw [disk.get?_set_of_ne entry ho]
  elsewhere := by
    intro other hother
    exact disk.get?_set_of_ne entry (by simpa using hother)

theorem Holds.get?_ne_folder (h : disk.Holds path content) :
    disk.get? (Path.place path) ≠ some .folder := by
  simp [h.2.1]

theorem Holds.eq {other : ByteArray} (h : disk.Holds path content) (h' : disk.Holds path other) :
    content = other := by
  have heq := h.2.1.symm.trans h'.2.1
  cases heq
  rfl

/-- A written file is found. -/
theorem holds_of_write (h : disk.write path content = .ok disk') :
    disk.Writes disk' [Path.place path] ∧ disk'.Holds path content := by
  obtain ⟨hr, hopen, hfree, rfl⟩ := write_eq_ok_iff.mp h
  have hwrites : disk.Writes (disk.put (Path.place path) (.file content)) [Path.place path] :=
    writes_set hfree (by simp)
  exact ⟨hwrites, hr.mono hwrites.keeps, disk.get?_put _ (disk.names_ne_nil hfree), hopen⟩

/-- A file that has been made sure of is found, with what it held before. -/
theorem holds_of_touch (h : disk.touch path = .ok disk') :
    disk.Writes disk' [Path.place path] ∧ ∃ content, disk'.Holds path content := by
  obtain ⟨hr, hopen, ⟨⟨content, hg⟩, rfl⟩ | ⟨hg, rfl⟩⟩ := touch_eq_ok_iff.mp h
  · exact ⟨.refl _ _, content, hr, hg, hopen⟩
  · have hfree : disk.get? (Path.place path) ≠ some .folder := by simp [hg]
    have hwrites : disk.Writes (disk.put (Path.place path) (.file .empty)) [Path.place path] :=
      writes_set hfree (by simp)
    exact ⟨hwrites, .empty, hr.mono hwrites.keeps, disk.get?_put _ (disk.names_ne_nil hfree),
      hopen⟩

/-- Making sure of a file fills its place if that is empty. -/
theorem get?_of_touch (h : disk.touch path = .ok disk') (place : Place) :
    disk'.get? place = if place = Path.place path ∧ disk.get? place = none then
      some (.file .empty) else disk.get? place := by
  obtain ⟨-, -, ⟨⟨content, hg⟩, rfl⟩ | ⟨hg, rfl⟩⟩ := touch_eq_ok_iff.mp h
  · rw [if_neg]
    rintro ⟨rfl, hnone⟩
    rw [hg] at hnone
    cases hnone
  · by_cases hplace : place = Path.place path
    · rw [hplace, if_pos ⟨rfl, hg⟩, disk.get?_put _ (disk.names_ne_nil (by simp [hg]))]
    · rw [if_neg fun hboth => hplace hboth.1, disk.get?_put_of_ne _ hplace]

theorem Holds.touch (h : disk.Holds path content) : disk.touch path = .ok disk :=
  touch_eq_ok_iff.mpr ⟨h.1, h.2.2, .inl ⟨⟨content, h.2.1⟩, rfl⟩⟩

theorem writes_of_remove (h : disk.remove path = .ok disk') :
    disk.Writes disk' [Path.place path] := by
  obtain ⟨⟨content, hholds⟩, rfl⟩ := remove_eq_ok h
  exact writes_set hholds.get?_ne_folder (by simp)

/-- A file that has been moved is found at its goal. -/
theorem holds_of_rename {goal : String} (h : disk.rename path goal = .ok disk') :
    disk.Writes disk' [Path.place path, Path.place goal] ∧
      ∃ content, disk.Holds path content ∧ disk'.Holds goal content := by
  obtain ⟨hr, -, hopen, hfree, content, hholds, rfl⟩ := rename_eq_ok_iff.mp h
  have herase : disk.Writes (disk.erase (Path.place path)) [Path.place path] :=
    writes_set hholds.get?_ne_folder (by simp)
  have hfree' : (disk.erase (Path.place path)).get? (Path.place goal) ≠ some .folder :=
    fun hg => hfree ((herase.folders _).mp hg)
  have hput : (disk.erase (Path.place path)).Writes
      ((disk.erase (Path.place path)).put (Path.place goal) (.file content)) [Path.place goal] :=
    writes_set hfree' (by simp)
  have hall := (herase.of_first (Path.place goal)).trans (hput.of_second (Path.place path))
  exact ⟨hall, content, hholds, hr.mono hall.keeps,
    Disk.get?_put _ _ (Disk.names_ne_nil _ hfree'), hopen⟩

end Disk

end Soundstage
