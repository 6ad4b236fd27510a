import Soundstage.Disk.Access

/-!
# Where a path leads on every disk

If a path leads anywhere, its parts alone say where: `Path.place`. The disk only says whether it
does, and it does once the folders on the way are there, `Disk.Passes`. So a path that leads
somewhere goes on to lead there as long as no folder is taken away, which no operation does.
-/

namespace Soundstage

namespace Place

/-- The place that the parts of a path lead to. -/
def follow (here : Place) : List String → Place
  | [] => here
  | part :: rest =>
    if part = "" || part = "." then follow here rest
    else if part = ".." then follow here.parent rest
    else follow (here.child part) rest

end Place

namespace Path

/-- A part that is no name. -/
def IsDots (part : String) : Prop := part = "" ∨ part = "." ∨ part = ".."

instance (part : String) : Decidable (IsDots part) := inferInstanceAs (Decidable (_ ∨ _ ∨ _))

/-- Parts that can only lead to a folder, as no name comes last. -/
def endsOpen : List String → Bool
  | [] => true
  | part :: rest => if IsDots part ∨ rest ≠ [] then endsOpen rest else false

theorem endsOpen_of_name {part : String} (rest : List String) (h : ¬ IsDots part) :
    endsOpen (part :: rest) = if rest = [] then false else endsOpen rest := by
  by_cases hr : rest = [] <;> simp [endsOpen, h, hr]

/-- The anchor that a path starts from. -/
def anchor (path : String) : Anchor := if isAbsolute path then .root else .above 0

/-- The place that a path leads to, if it leads anywhere. -/
def place (path : String) : Place := (⟨anchor path, []⟩ : Place).follow (parts path)

/-- The text of the path can be passed on to the system. -/
def IsShort (path : String) : Prop :=
  path ≠ "" ∧ path.toList.contains '\x00' = false ∧ path.utf8ByteSize < Disk.longestPath

end Path

theorem Place.follow_of_name (here : Place) {part : String} (rest : List String)
    (h : ¬ Path.IsDots part) : here.follow (part :: rest) = (here.child part).follow rest := by
  obtain ⟨h1, h2, h3⟩ := not_or.mp h |>.imp_right not_or.mp
  simp only [follow, h1, h2, h3, decide_false, Bool.or_self, Bool.false_eq_true, if_false]

namespace Disk

/-- The folders that the parts of a path need are there, and its names are not too long. -/
def Passes (disk : Disk) (here : Place) : List String → Prop
  | [] => True
  | part :: rest =>
    if part = "" || part = "." then Passes disk here rest
    else if part = ".." then Passes disk here.parent rest
    else part.utf8ByteSize ≤ longestName ∧
      (rest.all (· = "") = true ∨
        disk.get? (here.child part) = some .folder ∧ Passes disk (here.child part) rest)

theorem passes_of_name (disk : Disk) (here : Place) {part : String} (rest : List String)
    (h : ¬ Path.IsDots part) :
    disk.Passes here (part :: rest) ↔ part.utf8ByteSize ≤ longestName ∧
      (rest.all (· = "") = true ∨
        disk.get? (here.child part) = some .folder ∧ disk.Passes (here.child part) rest) := by
  obtain ⟨h1, h2, h3⟩ := not_or.mp h |>.imp_right not_or.mp
  simp only [Passes, h1, h2, h3, decide_false, Bool.or_self, Bool.false_eq_true, if_false]

/-- The rule for a name: behind it either nothing comes, or only slashes, or a folder is needed. -/
theorem follow_of_name (disk : Disk) (here : Place) {part : String} (rest : List String)
    (h : ¬ Path.IsDots part) (hshort : part.utf8ByteSize ≤ longestName) :
    disk.follow here (part :: rest) =
      if rest = [] then .ok ⟨here.child part, false⟩
      else match disk.get? (here.child part) with
        | none =>
          if rest.all (· = "") then .ok ⟨here.child part, true⟩ else .error .notFound
        | some (.file _) =>
          if rest.all (· = "") then .ok ⟨here.child part, true⟩ else .error .notFolder
        | some .folder => disk.follow (here.child part) rest := by
  obtain ⟨h1, h2, h3⟩ := not_or.mp h |>.imp_right not_or.mp
  have hlong : ¬ longestName < part.utf8ByteSize := Nat.not_lt.mpr hshort
  rcases hentry : disk.get? (here.child part) with _ | _ | _ <;>
    simp only [follow, hentry, h1, h2, h3, hlong, decide_false, Bool.or_self, Bool.false_eq_true,
      if_false]

theorem follow_of_all_empty (disk : Disk) (here : Place) {parts : List String}
    (h : parts.all (· = "") = true) :
    disk.follow here parts = .ok ⟨here, true⟩ ∧ here.follow parts = here ∧
      Path.endsOpen parts = true := by
  induction parts with
  | nil => exact ⟨rfl, rfl, rfl⟩
  | cons part rest ih =>
      simp only [List.all_cons, Bool.and_eq_true, decide_eq_true_eq] at h
      obtain ⟨rfl, hrest⟩ := h
      obtain ⟨hf, hp, ho⟩ := ih hrest
      refine ⟨?_, ?_, ?_⟩
      · simpa [follow] using hf
      · simpa [Place.follow] using hp
      · simpa [Path.endsOpen, Path.IsDots] using ho

/-- Following succeeds where the folders are there, and then the parts say where it leads. -/
theorem follow_eq_ok_iff (disk : Disk) (here : Place) (parts : List String) (target : Target) :
    disk.follow here parts = .ok target ↔
      disk.Passes here parts ∧ ⟨here.follow parts, Path.endsOpen parts⟩ = target := by
  induction parts generalizing here with
  | nil => simp [follow, Passes, Place.follow, Path.endsOpen]
  | cons part rest ih =>
      by_cases hskip : part = "" ∨ part = "."
      · have hdots : Path.IsDots part := hskip.imp_right .inl
        simp [follow, Passes, Place.follow, Path.endsOpen, hskip, hdots, ih]
      by_cases hup : part = ".."
      · subst hup
        simp [follow, Passes, Place.follow, Path.endsOpen, Path.IsDots, ih]
      have hname : ¬ Path.IsDots part := by
        rintro (h | h | h)
        · exact hskip (.inl h)
        · exact hskip (.inr h)
        · exact hup h
      rw [disk.passes_of_name here rest hname, Place.follow_of_name here rest hname,
        Path.endsOpen_of_name rest hname]
      by_cases hshort : part.utf8ByteSize ≤ longestName
      · rw [disk.follow_of_name here rest hname hshort]
        by_cases hlast : rest = []
        · subst hlast
          simp [hshort, Place.follow]
        by_cases hall : rest.all (· = "") = true
        · obtain ⟨hf, hp, ho⟩ := disk.follow_of_all_empty (here.child part) hall
          simp only [if_neg hlast, hall, hf, hp, ho, hshort, true_or, true_and, if_true]
          split <;> simp
        · simp only [if_neg hlast, hall, hshort, true_and]
          split
          · next he => simp [he]
          · next he => simp [he]
          · next he => simp [he, ih]
      · have hlong : longestName < part.utf8ByteSize := Nat.lt_of_not_le hshort
        simp [follow, hskip, hup, hlong, hshort]

/-- Every folder of one disk is one of another. -/
def KeepsFolders (disk disk' : Disk) : Prop :=
  ∀ place, disk.get? place = some .folder → disk'.get? place = some .folder

@[refl] theorem KeepsFolders.refl (disk : Disk) : disk.KeepsFolders disk := fun _ h => h

theorem KeepsFolders.trans {disk disk' disk'' : Disk} (h : disk.KeepsFolders disk')
    (h' : disk'.KeepsFolders disk'') : disk.KeepsFolders disk'' :=
  fun place hp => h' place (h place hp)

theorem Passes.mono {disk disk' : Disk} (h : disk.KeepsFolders disk') {parts : List String}
    {here : Place} (hp : disk.Passes here parts) : disk'.Passes here parts := by
  induction parts generalizing here with
  | nil => trivial
  | cons part rest ih =>
      unfold Passes at hp ⊢
      split
      · next hskip =>
          rw [if_pos hskip] at hp
          exact ih hp
      · next hskip =>
          rw [if_neg hskip] at hp
          split
          · next hup =>
              rw [if_pos hup] at hp
              exact ih hp
          · next hup =>
              rw [if_neg hup] at hp
              exact ⟨hp.1, hp.2.imp_right fun hr => ⟨h _ hr.1, ih hr.2⟩⟩

theorem all_empty_concat (front : List String) {name : String} (h : ¬ Path.IsDots name) :
    (front ++ [name]).all (· = "") = false := by
  have hname : name ≠ "" := fun heq => h (.inl heq)
  simp [hname]

/-- The names in the parts of a path are those of folders, also the last one. -/
def Enters (disk : Disk) (here : Place) : List String → Prop
  | [] => True
  | part :: rest =>
    if part = "" || part = "." then Enters disk here rest
    else if part = ".." then Enters disk here.parent rest
    else part.utf8ByteSize ≤ longestName ∧ disk.get? (here.child part) = some .folder ∧
      Enters disk (here.child part) rest

/-- A path is followed by entering what is in front of a part that is not empty. -/
theorem passes_append_iff {disk : Disk} {front back : List String}
    (hback : back.all (· = "") = false) (here : Place) :
    disk.Passes here (front ++ back) ↔
      disk.Enters here front ∧ disk.Passes (here.follow front) back := by
  induction front generalizing here with
  | nil => simp [Enters, Place.follow]
  | cons part rest ih =>
      have hfull : (rest ++ back).all (· = "") = false := by
        rw [List.all_append, hback, Bool.and_false]
      rw [List.cons_append]
      simp only [Passes, Enters, Place.follow, hfull, ih, Bool.false_eq_true, false_or]
      split
      · exact Iff.rfl
      · split
        · exact Iff.rfl
        · simp only [and_assoc]

/-- Whether a path can be followed does not depend on the last name in it. -/
theorem passes_concat_iff {disk : Disk} {front : List String} {name other : String}
    (hname : ¬ Path.IsDots name) (hother : ¬ Path.IsDots other)
    (hshort : name.utf8ByteSize ≤ longestName) (hshort' : other.utf8ByteSize ≤ longestName)
    (here : Place) :
    disk.Passes here (front ++ [name]) ↔ disk.Passes here (front ++ [other]) := by
  have hfull : [name].all (· = "") = false := all_empty_concat [] hname
  have hfull' : [other].all (· = "") = false := all_empty_concat [] hother
  rw [passes_append_iff hfull, passes_append_iff hfull', passes_of_name disk _ [] hname,
    passes_of_name disk _ [] hother]
  simp [hshort, hshort']

/-- The name of a file in a folder can be followed once the folder is there. -/
theorem passes_concat_concat_iff {disk : Disk} {front : List String} {folder name : String}
    (hfolder : ¬ Path.IsDots folder) (hname : ¬ Path.IsDots name) (here : Place) :
    disk.Passes here (front ++ [folder] ++ [name]) ↔ disk.Passes here (front ++ [folder]) ∧
      disk.get? ((here.follow front).child folder) = some .folder ∧
      name.utf8ByteSize ≤ longestName := by
  have hfull : [name].all (· = "") = false := all_empty_concat [] hname
  have hfull' : [folder].all (· = "") = false := all_empty_concat [] hfolder
  rw [List.append_assoc, passes_append_iff (all_empty_concat [folder] hname),
    passes_append_iff hfull', List.singleton_append, passes_of_name disk _ _ hfolder,
    passes_of_name disk _ [] hfolder, passes_of_name disk _ [] hname]
  simp only [hfull, List.all_nil, true_or, and_true, Bool.false_eq_true, false_or, and_assoc]

/-- A path leads somewhere. -/
def Reaches (disk : Disk) (path : String) : Prop :=
  Path.IsShort path ∧ disk.Passes ⟨Path.anchor path, []⟩ (Path.parts path)

theorem Reaches.mono {disk disk' : Disk} (h : disk.KeepsFolders disk') {path : String}
    (hr : disk.Reaches path) : disk'.Reaches path :=
  ⟨hr.1, hr.2.mono h⟩

theorem locate_of_isShort (disk : Disk) {path : String} (h : Path.IsShort path) :
    disk.locate path = disk.follow ⟨Path.anchor path, []⟩ (Path.parts path) := by
  obtain ⟨hempty, hnul, hshort⟩ := h
  unfold locate
  rw [if_neg hempty, if_neg (by simpa using hnul), if_neg (Nat.not_le.mpr hshort)]
  exact disk.walk_eq_follow (Spot.isOn_atAnchor disk (Path.anchor path)) (Path.parts path)

theorem isShort_of_locate {disk : Disk} {path : String} {target : Target}
    (h : disk.locate path = .ok target) : Path.IsShort path := by
  unfold locate at h
  split at h
  · cases h
  · next hempty =>
      split at h
      · cases h
      · next hnul =>
          split at h
          · cases h
          · next hlong => exact ⟨hempty, by simpa using hnul, Nat.lt_of_not_le hlong⟩

/-- A path leads to its place, or nowhere. -/
theorem locate_eq_ok_iff (disk : Disk) (path : String) (target : Target) :
    disk.locate path = .ok target ↔
      disk.Reaches path ∧ ⟨Path.place path, Path.endsOpen (Path.parts path)⟩ = target := by
  constructor
  · intro h
    have hshort := isShort_of_locate h
    rw [disk.locate_of_isShort hshort, follow_eq_ok_iff] at h
    exact ⟨⟨hshort, h.1⟩, h.2⟩
  · rintro ⟨⟨hshort, hpasses⟩, htarget⟩
    rw [disk.locate_of_isShort hshort, follow_eq_ok_iff]
    exact ⟨hpasses, htarget⟩

theorem Reaches.locate {disk : Disk} {path : String} (h : disk.Reaches path) :
    disk.locate path = .ok ⟨Path.place path, Path.endsOpen (Path.parts path)⟩ :=
  (disk.locate_eq_ok_iff path _).mpr ⟨h, rfl⟩

theorem locate_of_not_reaches {disk : Disk} {path : String} (h : ¬ disk.Reaches path) :
    ∃ fault, disk.locate path = .error fault := by
  cases hl : disk.locate path with
  | error fault => exact ⟨fault, rfl⟩
  | ok target => exact absurd ((disk.locate_eq_ok_iff path target).mp hl).1 h

end Disk

end Soundstage
