import Soundstage.Proofs.Disk.Effects

/-!
# Making folders

`Disk.makeFolders` climbs to a folder that is there and comes back, making what is missing.
Whether it succeeds or not, it only puts folders where nothing stood. Where it has succeeded the
folder is there, and making it again changes nothing, also on a disk that has got more since.
-/

namespace Soundstage

namespace Disk

variable {disk disk' disk'' : Disk} {path : String}

/-- The view differs by folders only, which stand where nothing stood. -/
def AddsFolders (disk disk' : Disk) : Prop :=
  ∀ place, disk'.get? place = disk.get? place ∨
    disk.get? place = none ∧ disk'.get? place = some .folder

@[refl] theorem AddsFolders.refl (disk : Disk) : disk.AddsFolders disk := fun _ => .inl rfl

theorem AddsFolders.trans (h : disk.AddsFolders disk') (h' : disk'.AddsFolders disk'') :
    disk.AddsFolders disk'' := by
  intro place
  rcases h place with h1 | ⟨h1, h2⟩ <;> rcases h' place with h3 | ⟨h3, h4⟩
  · exact .inl (h3.trans h1)
  · exact .inr ⟨h1 ▸ h3, h4⟩
  · exact .inr ⟨h1, h3.trans h2⟩
  · rw [h2] at h3
    cases h3

theorem AddsFolders.keepsFolders (h : disk.AddsFolders disk') : disk.KeepsFolders disk' := by
  intro place hp
  rcases h place with h1 | ⟨h1, -⟩
  · exact h1.trans hp
  · rw [hp] at h1
    cases h1

/-- All of these folders stand at the places of the given paths. -/
def AddsFoldersAt (disk disk' : Disk) (paths : List String) : Prop :=
  ∀ place, disk'.get? place = disk.get? place ∨
    disk.get? place = none ∧ disk'.get? place = some .folder ∧
      ∃ path ∈ paths, place = Path.place path

namespace AddsFoldersAt

variable {paths paths' : List String}

theorem refl (disk : Disk) (paths : List String) : disk.AddsFoldersAt disk paths :=
  fun _ => .inl rfl

theorem addsFolders (h : disk.AddsFoldersAt disk' paths) : disk.AddsFolders disk' :=
  fun place => (h place).imp_right fun hnew => ⟨hnew.1, hnew.2.1⟩

theorem trans (h : disk.AddsFoldersAt disk' paths) (h' : disk'.AddsFoldersAt disk'' paths) :
    disk.AddsFoldersAt disk'' paths := by
  intro place
  rcases h place with h1 | ⟨h1, h2, hpath⟩ <;> rcases h' place with h3 | ⟨h3, h4, hpath'⟩
  · exact .inl (h3.trans h1)
  · exact .inr ⟨h1 ▸ h3, h4, hpath'⟩
  · exact .inr ⟨h1, h3.trans h2, hpath⟩
  · rw [h2] at h3
    cases h3

theorem mono (h : disk.AddsFoldersAt disk' paths) (hsub : paths ⊆ paths') :
    disk.AddsFoldersAt disk' paths' := by
  intro place
  rcases h place with hsame | ⟨hnone, hfolder, path, hpath, hplace⟩
  · exact .inl hsame
  · exact .inr ⟨hnone, hfolder, path, hsub hpath, hplace⟩

end AddsFoldersAt

theorem addsFolders_put (h : disk.get? (Path.place path) = none) :
    disk.AddsFoldersAt (disk.put (Path.place path) .folder) [path] := by
  intro other
  by_cases ho : other = Path.place path
  · subst ho
    exact .inr ⟨h, disk.get?_put _ (disk.names_ne_nil (by simp [h])), path, List.mem_cons_self, rfl⟩
  · exact .inl (disk.get?_put_of_ne _ ho)

theorem addsFolders_makeFolder (h : disk.makeFolder path = .ok disk') :
    disk.AddsFoldersAt disk' [path] ∧ disk'.isFolder path = true := by
  obtain ⟨hr, hg, rfl⟩ := makeFolder_eq_ok h
  have hadds := addsFolders_put hg
  refine ⟨hadds, isFolder_iff.mpr ⟨hr.mono hadds.addsFolders.keepsFolders, ?_⟩⟩
  exact disk.get?_put _ (disk.names_ne_nil (by simp [hg]))

theorem isFolder_mono (h : disk.KeepsFolders disk') (hf : disk.isFolder path = true) :
    disk'.isFolder path = true := by
  rw [isFolder_iff] at hf ⊢
  exact ⟨hf.1.mono h, h _ hf.2⟩

theorem makeFolder_of_isFolder (h : disk.isFolder path = true) :
    disk.makeFolder path = .error .alreadyExists := by
  obtain ⟨hr, hg⟩ := isFolder_iff.mp h
  unfold makeFolder
  rw [hr.locate]
  simp [bind, Except.bind, hg]

theorem addsFolders_makeEach (disk : Disk) (paths : List String) :
    disk.AddsFoldersAt (disk.makeEach paths).2 paths ∧
      ((disk.makeEach paths).1 = .ok () →
        ∀ path ∈ paths, (disk.makeEach paths).2.isFolder path = true) := by
  induction paths generalizing disk with
  | nil => exact ⟨.refl disk [], by simp⟩
  | cons first rest ih =>
      unfold makeEach
      split
      · next made hmade =>
          obtain ⟨hadds, hfolder⟩ := addsFolders_makeFolder hmade
          obtain ⟨hadds', hrest⟩ := ih made
          refine ⟨(hadds.mono (by simp)).trans (hadds'.mono (by simp)), fun hok path hpath => ?_⟩
          rcases List.mem_cons.mp hpath with rfl | hpath
          · exact isFolder_mono hadds'.addsFolders.keepsFolders hfolder
          · exact hrest hok path hpath
      · next fault _ =>
          split
          · next hthere =>
              simp only [Bool.and_eq_true, decide_eq_true_eq] at hthere
              obtain ⟨hadds', hrest⟩ := ih disk
              refine ⟨hadds'.mono (by simp), fun hok path hpath => ?_⟩
              rcases List.mem_cons.mp hpath with rfl | hpath
              · exact isFolder_mono hadds'.addsFolders.keepsFolders hthere.2
              · exact hrest hok path hpath
          · exact ⟨.refl disk _, by simp⟩

/-- Climbing puts folders only, and makes all that it has passed on the way and the one at which it
turned round. -/
theorem addsFolders_climb (disk : Disk) (passed paths : List String) :
    disk.AddsFoldersAt (disk.climb passed paths).2 (passed ++ paths) ∧
      ((disk.climb passed paths).1 = .ok () →
        (∀ path ∈ passed, (disk.climb passed paths).2.isFolder path = true) ∧
          ∀ path ∈ paths.head?, (disk.climb passed paths).2.isFolder path = true) := by
  induction paths generalizing passed with
  | nil =>
      obtain ⟨hadds, hok⟩ := disk.addsFolders_makeEach passed
      exact ⟨hadds.mono (by simp), fun h => ⟨hok h, by simp⟩⟩
  | cons first rest ih =>
      unfold climb
      split
      · next made hmade =>
          obtain ⟨hadds, hfolder⟩ := addsFolders_makeFolder hmade
          obtain ⟨hadds', hpassed⟩ := made.addsFolders_makeEach passed
          refine ⟨(hadds.mono (by simp)).trans (hadds'.mono (by simp)),
            fun hok => ⟨hpassed hok, ?_⟩⟩
          simpa using isFolder_mono hadds'.addsFolders.keepsFolders hfolder
      · obtain ⟨hadds, hok⟩ := ih (first :: passed)
        refine ⟨hadds.mono fun path hpath => ?_, fun h => ⟨fun path hpath => ?_, ?_⟩⟩
        · simpa [or_left_comm] using hpath
        · exact (hok h).1 path (List.mem_cons_of_mem _ hpath)
        · simpa using (hok h).1 first List.mem_cons_self
      · next fault _ _ =>
          split
          · next hthere =>
              simp only [Bool.and_eq_true, decide_eq_true_eq] at hthere
              obtain ⟨hadds, hpassed⟩ := disk.addsFolders_makeEach passed
              refine ⟨hadds.mono (by simp), fun hok => ⟨hpassed hok, ?_⟩⟩
              simpa using isFolder_mono hadds.addsFolders.keepsFolders hthere.2
          · exact ⟨.refl disk _, by simp⟩

/-- Making a folder puts no others than it and those on the way to it. -/
theorem addsFoldersAt_makeFolders (disk : Disk) (path : String) :
    disk.AddsFoldersAt (disk.makeFolders path).2 (Path.ancestors path) :=
  (disk.addsFolders_climb [] (Path.ancestors path)).1

theorem addsFolders_makeFolders (disk : Disk) (path : String) :
    disk.AddsFolders (disk.makeFolders path).2 :=
  (disk.addsFoldersAt_makeFolders path).addsFolders

theorem ancestors_eq (path : String) :
    Path.ancestors path = [] ∨ ∃ rest, Path.ancestors path = path :: rest := by
  unfold Path.ancestors
  cases (Path.parts path).length with
  | zero => exact .inl rfl
  | succ fuel =>
      unfold Path.ancestorsUpTo
      cases Path.parent? path with
      | none => exact .inl rfl
      | some parent => exact .inr ⟨_, rfl⟩

/-- Where a folder is there, making it has nothing to do. -/
theorem makeFolders_of_isFolder (h : disk.isFolder path = true) :
    disk.makeFolders path = (.ok (), disk) := by
  unfold makeFolders
  rcases ancestors_eq path with hnil | ⟨rest, hcons⟩
  · rw [hnil]
    rfl
  · rw [hcons]
    simp [climb, makeFolder_of_isFolder h, h, makeEach]

/-- What has been made is there. -/
theorem isFolder_of_makeFolders {rest : List String} (hpath : Path.ancestors path = path :: rest)
    (h : disk.makeFolders path = (.ok (), disk')) : disk'.isFolder path = true := by
  have hhead := ((disk.addsFolders_climb [] (Path.ancestors path)).2 (by
    rw [← makeFolders, h])).2 path (by simp [hpath])
  rwa [← makeFolders, h] at hhead

/-- Where making folders has succeeded once, it succeeds again and has nothing to do. -/
theorem makeFolders_again (h : (disk.makeFolders path).1 = .ok ())
    (hkeeps : (disk.makeFolders path).2.KeepsFolders disk') :
    disk'.makeFolders path = (.ok (), disk') := by
  rcases ancestors_eq path with hnil | ⟨rest, hcons⟩
  · unfold makeFolders
    rw [hnil]
    rfl
  · have hfolder := isFolder_of_makeFolders hcons (Prod.ext h rfl)
    exact makeFolders_of_isFolder (isFolder_mono hkeeps hfolder)

theorem makeEach_append (disk : Disk) (paths more : List String) :
    disk.makeEach (paths ++ more) = match disk.makeEach paths with
      | (.ok (), made) => made.makeEach more
      | (.error fault, made) => (.error fault, made) := by
  induction paths generalizing disk with
  | nil => rfl
  | cons first rest ih =>
      rw [List.cons_append]
      simp only [makeEach]
      cases disk.makeFolder first with
      | ok made => exact ih made
      | error fault =>
          simp only
          split
          · exact ih disk
          · rfl

/-- What is to be made last has no influence on the climb before it. -/
theorem climb_append (disk : Disk) (passed last paths : List String) :
    disk.climb (passed ++ last) paths = match disk.climb passed paths with
      | (.ok (), made) => made.makeEach last
      | (.error fault, made) => (.error fault, made) := by
  induction paths generalizing passed with
  | nil => exact disk.makeEach_append passed last
  | cons first rest ih =>
      unfold climb
      split
      · exact makeEach_append _ passed last
      · exact ih (first :: passed)
      · split
        · exact makeEach_append _ passed last
        · rfl

/-- Making a folder whose own folders are there touches its place only. Otherwise its own folders
are made first, in a way that does not depend on its name. -/
theorem makeFolders_cases {rest : List String} (hpath : Path.ancestors path = path :: rest)
    (h : disk.makeFolders path = (.ok (), disk')) :
    (disk.Reaches path ∧
        ∀ place, place ≠ Path.place path → disk'.get? place = disk.get? place) ∨
      ¬ disk.Reaches path ∧
        ∀ place, place ≠ Path.place path →
          disk'.get? place = (disk.climb [] rest).2.get? place := by
  have hput : ∀ (d : Disk) (place : Place), place ≠ Path.place path →
      (d.put (Path.place path) .folder).get? place = d.get? place :=
    fun d place hplace => d.get?_put_of_ne _ hplace
  unfold makeFolders at h
  rw [hpath] at h
  unfold climb at h
  split at h
  · next made hmade =>
      obtain ⟨hr, -, rfl⟩ := makeFolder_eq_ok hmade
      cases h
      exact .inl ⟨hr, hput disk⟩
  · next hmissing =>
      refine .inr ⟨not_reaches_of_makeFolder hmissing, ?_⟩
      rw [← List.nil_append [path], climb_append] at h
      split at h
      · next made hclimb =>
          rw [hclimb]
          unfold makeEach at h
          split at h
          · next made' hmade' =>
              obtain ⟨-, -, rfl⟩ := makeFolder_eq_ok hmade'
              cases h
              exact hput made
          · split at h
            · cases h
              exact fun _ _ => rfl
            · cases h
      · cases h
  · split at h
    · next hthere =>
        simp only [Bool.and_eq_true, decide_eq_true_eq] at hthere
        cases h
        exact .inl ⟨(isFolder_iff.mp hthere.2).1, fun _ _ => rfl⟩
    · cases h

end Disk

end Soundstage
