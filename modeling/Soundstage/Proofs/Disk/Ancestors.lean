import Soundstage.Proofs.Disk.Folders
import Soundstage.Proofs.Disk.Sibling

/-!
# The folders on the way to a folder

`Path.ancestors` goes from a path to the folder around it and on, as far as there is one. A path
leads somewhere exactly if the folder around it is there, so where a folder is there all its
ancestors are. From this follows when folders can be made: `Disk.makeFolders` succeeds wherever no
file is in the way, whichever of the folders are there already.
-/

namespace Soundstage

namespace Path

variable {path parent last : String} {front tail : List String}

/-- Nothing comes behind the last part of the path that means something. -/
def IsTrimmed (path : String) : Prop := trimmedParts path = parts path

instance (path : String) : Decidable (IsTrimmed path) := inferInstanceAs (Decidable (_ = _))

theorem mem_of_mem_dropTrailing {part : String} (h : part ∈ dropTrailing front) : part ∈ front := by
  obtain ⟨tail, htail, -⟩ := dropTrailing_append front
  rw [htail]
  exact List.mem_append_left tail h

theorem length_dropTrailing_le (list : List String) : (dropTrailing list).length ≤ list.length := by
  obtain ⟨tail, htail, -⟩ := dropTrailing_append list
  have hlength := congrArg List.length htail
  rw [List.length_append] at hlength
  omega

theorem dropTrailing_dropTrailing (list : List String) :
    dropTrailing (dropTrailing list) = dropTrailing list := by
  cases list with
  | nil => rfl
  | cons first rest =>
      rcases dropTrailing_cons first rest with hone | ⟨inner, last, hmany, hlast⟩
      · rw [hone]
        rfl
      · rw [hmany, dropTrailing_concat _ hlast]

/-- The path around a path, by the parts in front of its last one. -/
inductive Encloses (front : List String) : String → Prop
  | working (h : front = []) : Encloses front ""
  | root (h : front ≠ []) (hroot : dropTrailing front = [""]) : Encloses front "/"
  | inner {parent : String} (h : front ≠ []) (hparts : parts parent = dropTrailing front)
      (hempty : parent ≠ "") (hroot : dropTrailing front ≠ [""]) : Encloses front parent

theorem encloses_ofParts (hne : front ≠ []) (h : ∀ part ∈ front, IsPart part) :
    Encloses front (ofParts (dropTrailing front)) := by
  by_cases hroot : dropTrailing front = [""]
  · rw [hroot]
    exact .root hne hroot
  · have hjoined : ofParts (dropTrailing front) = "/".intercalate (dropTrailing front) := by
      unfold ofParts
      split
      · next heq => exact absurd heq hroot
      · rfl
    have hdrop : dropTrailing front ≠ [] := by
      obtain ⟨first, rest, rfl⟩ := List.exists_cons_of_ne_nil hne
      exact List.cons_ne_nil _ _
    have hparts : parts (ofParts (dropTrailing front)) = dropTrailing front := by
      rw [hjoined]
      exact parts_intercalate hdrop fun part hpart => h part (mem_of_mem_dropTrailing hpart)
    refine .inner hne hparts (fun hempty => hroot ?_) hroot
    rw [← hparts, hempty]
    exact parts_of_isPart (by simp [IsPart])

/-- The path around a path is what is in front of its last part that means something. -/
theorem parent?_eq_some (h : parent? path = some parent) :
    ∃ front last tail, trimmedParts path = front ++ [last] ∧ parts path = front ++ last :: tail ∧
      last ≠ "" ∧ Encloses front parent := by
  obtain ⟨tail, htail, -⟩ := dropTrailing_append (parts path)
  obtain ⟨first, rest, hparts⟩ := List.exists_cons_of_ne_nil (parts_ne_nil path)
  unfold parent? trimmedParts at h
  unfold trimmedParts
  rcases dropTrailing_cons first rest with hone | ⟨inner, last, hmany, hlast⟩
  · rw [hparts, hone] at h htail ⊢
    by_cases hfirst : first = ""
    · simp [hfirst] at h
    · obtain rfl : "" = parent := by simpa [hfirst] using h
      exact ⟨[], first, tail, rfl, htail, hfirst, .working rfl⟩
  · rw [hparts, hmany] at h htail ⊢
    have hdrop : (first :: inner ++ [last]).dropLast = first :: inner := List.dropLast_concat
    obtain rfl : ofParts (dropTrailing (first :: inner)) = parent := by cases inner <;> simp_all
    refine ⟨first :: inner, last, tail, rfl, by simpa using htail, fun hl => hlast (.inl hl), ?_⟩
    refine encloses_ofParts (List.cons_ne_nil _ _) fun part hpart => ?_
    have hmem : part ∈ parts path := by
      rw [hparts, htail]
      exact List.mem_append_left _ (List.mem_append_left _ hpart)
    exact isPart_of_mem_parts hmem

/-- Where there is no path around a path, it is made of parts that mean nothing. -/
theorem parent?_eq_none (h : parent? path = none) :
    ∃ tail, parts path = "" :: tail ∧ ∀ part ∈ tail, IsBlankPart part := by
  obtain ⟨tail, htail, hblank⟩ := dropTrailing_append (parts path)
  obtain ⟨first, rest, hparts⟩ := List.exists_cons_of_ne_nil (parts_ne_nil path)
  unfold parent? trimmedParts at h
  rcases dropTrailing_cons first rest with hone | ⟨inner, last, hmany, -⟩
  · rw [hparts, hone] at h htail
    by_cases hfirst : first = ""
    · exact ⟨tail, by rw [hparts, htail, hfirst]; rfl, hblank⟩
    · simp [hfirst] at h
  · rw [hparts, hmany] at h
    cases inner <;> simp at h

theorem parent?_empty : parent? "" = none := by decide

theorem parent?_slash : parent? "/" = none := by decide

/-- The path around a path is trimmed, unless it is the root. -/
theorem isTrimmed_parent (h : parent? path = some parent) : IsTrimmed parent ∨ parent = "/" := by
  obtain ⟨front, last, tail, -, -, -, hparent⟩ := parent?_eq_some h
  cases hparent with
  | working => exact .inl (by decide)
  | root => exact .inr rfl
  | inner _ hparts =>
      refine .inl ?_
      unfold IsTrimmed trimmedParts
      rw [hparts, dropTrailing_dropTrailing]

/-- How many parts of a path are climbed over. -/
def depth (path : String) : Nat :=
  match parent? path with
  | none => 0
  | some _ => (trimmedParts path).length

theorem depth_of_none (h : parent? path = none) : depth path = 0 := by
  unfold depth
  rw [h]

theorem depth_le_length_parts (path : String) : depth path ≤ (parts path).length := by
  unfold depth
  split
  · exact Nat.zero_le _
  · exact length_dropTrailing_le (parts path)

theorem depth_parent_lt (h : parent? path = some parent) : depth parent < depth path := by
  obtain ⟨front, last, tail, htrimmed, -, -, hparent⟩ := parent?_eq_some h
  have hdepth : depth path = front.length + 1 := by
    unfold depth
    rw [h]
    simp [htrimmed]
  rw [hdepth, Nat.lt_succ_iff]
  cases hparent with
  | working =>
      rw [depth_of_none parent?_empty]
      exact Nat.zero_le _
  | root =>
      rw [depth_of_none parent?_slash]
      exact Nat.zero_le _
  | inner _ hparts =>
      have hle := depth_le_length_parts parent
      rw [hparts] at hle
      exact Nat.le_trans hle (length_dropTrailing_le front)

/-- What is known of the folder around a path is carried over to the path, on all the way down. -/
@[elab_as_elim]
theorem climbing {motive : String → Prop} (top : ∀ path, parent? path = none → motive path)
    (step : ∀ path parent, parent? path = some parent → motive parent → motive path)
    (path : String) : motive path := by
  induction hdepth : depth path using Nat.strong_induction_on generalizing path with
  | _ n ih =>
      cases h : parent? path with
      | none => exact top path h
      | some parent => exact step path parent h (ih _ (hdepth ▸ depth_parent_lt h) parent rfl)

/-- Fuel for all parts is enough. -/
theorem ancestorsUpTo_eq {fuel fuel' : Nat} (h : depth path ≤ fuel) (h' : depth path ≤ fuel') :
    ancestorsUpTo fuel path = ancestorsUpTo fuel' path := by
  induction path using climbing generalizing fuel fuel' with
  | top path hnone => cases fuel <;> cases fuel' <;> simp [ancestorsUpTo, hnone]
  | step path parent hsome ih =>
      have hlt := depth_parent_lt hsome
      obtain ⟨k, rfl⟩ : ∃ k, fuel = k + 1 := Nat.exists_eq_succ_of_ne_zero (by omega)
      obtain ⟨k', rfl⟩ : ∃ k', fuel' = k' + 1 := Nat.exists_eq_succ_of_ne_zero (by omega)
      have hrest : ancestorsUpTo k parent = ancestorsUpTo k' parent := ih (by omega) (by omega)
      simp only [ancestorsUpTo, hsome, hrest]

theorem ancestors_of_none (h : parent? path = none) : ancestors path = [] := by
  unfold ancestors
  cases (parts path).length <;> simp [ancestorsUpTo, h]

theorem ancestors_of_some (h : parent? path = some parent) :
    ancestors path = path :: ancestors parent := by
  have hlt := depth_parent_lt h
  have hle := depth_le_length_parts path
  obtain ⟨k, hk⟩ : ∃ k, (parts path).length = k + 1 := Nat.exists_eq_succ_of_ne_zero (by omega)
  have hrest : ancestorsUpTo k parent = ancestorsUpTo (parts parent).length parent :=
    ancestorsUpTo_eq (by omega) (depth_le_length_parts parent)
  unfold ancestors
  rw [hk]
  simp only [ancestorsUpTo, h, hrest]

/-- The text of a path around a path can be passed on to the system if that of the path can. -/
theorem isShort_parent (h : IsShort path) (hparent : parent? path = some parent)
    (hempty : parent ≠ "") : IsShort parent := by
  obtain ⟨hne, hnul, hlong⟩ := h
  obtain ⟨front, last, tail, -, hparts, -, hencloses⟩ := parent?_eq_some hparent
  cases hencloses with
  | working => exact absurd rfl hempty
  | root =>
      refine ⟨hempty, by decide, ?_⟩
      have hslash : "/".utf8ByteSize = 1 := by decide
      have hroom : 1 < Disk.longestPath := by decide
      omega
  | inner hfront hinner _ hroot =>
      obtain ⟨blank, hblank, -⟩ := dropTrailing_append front
      -- The path starts with the text of the path around it.
      have hback : ∀ part ∈ blank ++ last :: tail, IsPart part := by
        intro part hpart
        have hmem : part ∈ parts path := by
          rw [hparts, hblank, List.append_assoc]
          exact List.mem_append_right _ hpart
        exact isPart_of_mem_parts hmem
      have hpath : path = parent ++ "/" ++ "/".intercalate (blank ++ last :: tail) := by
        apply parts_injective
        rw [parts_slash, hinner, parts_intercalate (by simp) hback, ← List.append_assoc, ← hblank]
        exact hparts
      refine ⟨hempty, ?_, ?_⟩
      · rw [hpath] at hnul
        simp only [String.toList_append, List.append_assoc, List.contains_append,
          Bool.or_eq_false_iff] at hnul
        exact hnul.1
      · rw [hpath, String.utf8ByteSize_append, String.utf8ByteSize_append] at hlong
        omega

end Path

namespace Place

/-- A place and all places around it below its anchor are folders. -/
def Stands (disk : Disk) (place : Place) : Prop :=
  ∀ names, names <+: place.names → disk.get? ⟨place.anchor, names⟩ = some .folder

variable {disk : Disk} {here : Place}

theorem stands_anchor (disk : Disk) (anchor : Anchor) : Stands disk ⟨anchor, []⟩ := by
  intro names hnames
  rw [List.prefix_nil.mp hnames]
  exact disk.get?_of_names_eq_nil rfl

theorem Stands.get? (h : here.Stands disk) : disk.get? here = some .folder :=
  h here.names (List.prefix_refl _)

theorem Stands.parent (h : here.Stands disk) : here.parent.Stands disk := by
  unfold Place.parent
  split
  · exact stands_anchor disk _
  · exact fun names hnames => h names (hnames.trans (List.dropLast_prefix _))

theorem Stands.child {name : String} (h : here.Stands disk)
    (hg : disk.get? (here.child name) = some .folder) : (here.child name).Stands disk := by
  intro names hnames
  rcases List.prefix_concat_iff.mp hnames with heq | hinner
  · rw [heq]
    exact hg
  · exact h names hinner

end Place

namespace Disk

variable {disk disk' full : Disk} {path parent last : String} {front parts tail : List String}
  {here : Place}

/-- The last part of a path needs no folder. -/
theorem passes_last (h : disk.Passes here [last]) : disk'.Passes here [last] := by
  by_cases hdots : Path.IsDots last
  · rcases hdots with rfl | rfl | rfl <;> simp [Passes]
  · rw [passes_of_name _ here [] hdots] at h ⊢
    exact ⟨h.1, .inl rfl⟩

theorem passes_of_enters (h : disk.Enters here parts) : disk.Passes here parts := by
  induction here, parts using Place.follow.induct with
  | case1 here => trivial
  | case2 here part rest hskip ih =>
      rw [Enters, if_pos hskip] at h
      rw [Passes, if_pos hskip]
      exact ih h
  | case3 here rest hskip ih =>
      rw [Enters, if_neg hskip, if_pos rfl] at h
      rw [Passes, if_neg hskip, if_pos rfl]
      exact ih h
  | case4 here part rest hskip hup ih =>
      rw [Enters, if_neg hskip, if_neg hup] at h
      rw [Passes, if_neg hskip, if_neg hup]
      exact ⟨h.1, .inr ⟨h.2.1, ih h.2.2⟩⟩

theorem enters_of_blank (here : Place) (h : ∀ part ∈ parts, Path.IsBlankPart part) :
    disk.Enters here parts := by
  induction parts with
  | nil => trivial
  | cons part rest ih =>
      have hpart : part = "" ∨ part = "." := h part List.mem_cons_self
      unfold Enters
      rw [if_pos (by simpa using hpart)]
      exact ih fun other hother => h other (List.mem_cons_of_mem _ hother)

theorem enters_append (here : Place) (front back : List String) :
    disk.Enters here (front ++ back) ↔
      disk.Enters here front ∧ disk.Enters (here.follow front) back := by
  induction front generalizing here with
  | nil => simp [Enters, Place.follow]
  | cons part rest ih =>
      rw [List.cons_append]
      simp only [Enters, Place.follow, ih]
      split
      · exact Iff.rfl
      · split
        · exact Iff.rfl
        · simp only [and_assoc]

/-- Parts at the end that mean nothing do not matter. -/
theorem enters_dropTrailing_iff (here : Place) (parts : List String) :
    disk.Enters here (Path.dropTrailing parts) ↔ disk.Enters here parts := by
  obtain ⟨tail, htail, hblank⟩ := Path.dropTrailing_append parts
  have happend : disk.Enters here parts ↔ disk.Enters here (Path.dropTrailing parts) ∧
      disk.Enters (here.follow (Path.dropTrailing parts)) tail := by
    rw [← enters_append, ← htail]
  rw [happend, and_iff_left (enters_of_blank _ hblank)]

/-- A folder that has been entered is there, with all folders around it. -/
theorem stands_follow (hhere : here.Stands disk) (h : disk.Enters here parts) :
    (here.follow parts).Stands disk := by
  induction here, parts using Place.follow.induct with
  | case1 here => exact hhere
  | case2 here part rest hskip ih =>
      rw [Enters, if_pos hskip] at h
      rw [Place.follow, if_pos hskip]
      exact ih hhere h
  | case3 here rest hskip ih =>
      rw [Enters, if_neg hskip, if_pos rfl] at h
      rw [Place.follow, if_neg hskip, if_pos rfl]
      exact ih hhere.parent h
  | case4 here part rest hskip hup ih =>
      rw [Enters, if_neg hskip, if_neg hup] at h
      rw [Place.follow, if_neg hskip, if_neg hup]
      exact ih (hhere.child h.2.1) h.2.2

/-- Where a followed path leads to a folder, the folder can be entered. -/
theorem enters_of_passes (h : disk.Passes here parts)
    (hg : disk.get? (here.follow parts) = some .folder) : disk.Enters here parts := by
  induction here, parts using Place.follow.induct with
  | case1 here => trivial
  | case2 here part rest hskip ih =>
      rw [Passes, if_pos hskip] at h
      rw [Place.follow, if_pos hskip] at hg
      rw [Enters, if_pos hskip]
      exact ih h hg
  | case3 here rest hskip ih =>
      rw [Passes, if_neg hskip, if_pos rfl] at h
      rw [Place.follow, if_neg hskip, if_pos rfl] at hg
      rw [Enters, if_neg hskip, if_pos rfl]
      exact ih h hg
  | case4 here part rest hskip hup ih =>
      rw [Passes, if_neg hskip, if_neg hup] at h
      rw [Place.follow, if_neg hskip, if_neg hup] at hg
      rw [Enters, if_neg hskip, if_neg hup]
      refine ⟨h.1, ?_⟩
      rcases h.2 with hall | ⟨hfolder, hrest⟩
      · -- Only slashes come behind the name, so that it is the last one.
        have hblank : ∀ part ∈ rest, Path.IsBlankPart part := by
          intro part hpart
          exact .inl (by simpa using List.all_eq_true.mp hall part hpart)
        rw [Place.follow_of_blank _ hblank] at hg
        exact ⟨hg, enters_of_blank _ hblank⟩
      · exact ⟨hfolder, ih hrest hg⟩

/-- A path leads to a folder exactly if the folder can be entered. -/
theorem isFolder_iff_enters : disk.isFolder path = true ↔
    Path.IsShort path ∧ disk.Enters ⟨Path.anchor path, []⟩ (Path.parts path) := by
  rw [isFolder_iff]
  constructor
  · rintro ⟨⟨hshort, hpasses⟩, hg⟩
    exact ⟨hshort, enters_of_passes hpasses hg⟩
  · rintro ⟨hshort, henters⟩
    have hstands := stands_follow (Place.stands_anchor disk (Path.anchor path)) henters
    exact ⟨⟨hshort, passes_of_enters henters⟩, hstands.get?⟩

/-- The folder around a path is there, or is the working directory. -/
def HasParent (disk : Disk) (parent : String) : Prop := parent = "" ∨ disk.isFolder parent = true

/-- The folder around a short path is there if what is in front of the last part is entered. -/
theorem hasParent_iff (hshort : Path.IsShort path)
    (hparts : Path.parts path = front ++ last :: tail) (hparent : Path.parent? path = some parent)
    (hencloses : Path.Encloses front parent) :
    disk.HasParent parent ↔ disk.Enters ⟨Path.anchor path, []⟩ front := by
  have hsize := Path.isShort_parent hshort hparent
  cases hencloses with
  | working hnil => simp [HasParent, hnil, Enters]
  | root hne hroot =>
      have hslash : Path.parts "/" = ["", ""] := by decide
      have hfolder : disk.isFolder "/" = true := by
        rw [isFolder_iff_enters, hslash]
        exact ⟨hsize (by decide), enters_of_blank _ (by simp [Path.IsBlankPart])⟩
      rw [← enters_dropTrailing_iff, hroot]
      exact iff_of_true (.inr hfolder) (enters_of_blank _ (by simp [Path.IsBlankPart]))
  | inner hne hinner hempty hroot =>
      have hanchor : Path.anchor parent = Path.anchor path := by
        obtain ⟨first, rest, rfl⟩ := List.exists_cons_of_ne_nil hne
        obtain ⟨others, hdrop⟩ : ∃ others, Path.dropTrailing (first :: rest) = first :: others :=
          ⟨_, rfl⟩
        rw [hdrop] at hinner hroot
        rw [Path.anchor_of_parts hinner, Path.anchor_of_parts hparts]
        have hothers : first = "" → others ≠ [] := by
          rintro rfl rfl
          exact hroot rfl
        by_cases hfirst : first = ""
        · simp [hfirst, hothers hfirst]
        · simp [hfirst]
      unfold HasParent
      rw [isFolder_iff_enters, hinner, enters_dropTrailing_iff, hanchor]
      simp [hempty, hsize hempty]

/-- What is reached stands in a folder. -/
theorem hasParent_of_reaches (hr : disk.Reaches path) (h : Path.parent? path = some parent) :
    disk.HasParent parent := by
  obtain ⟨front, last, tail, -, hparts, hlast, hencloses⟩ := Path.parent?_eq_some h
  have hpasses := hr.2
  rw [hparts, passes_append_iff (by simp [hlast])] at hpasses
  exact (hasParent_iff hr.1 hparts h hencloses).mpr hpasses.1

/-- Once the folder around a path is there, the path is reached, if its names are not too long. -/
theorem reaches_of_hasParent (htrimmed : Path.IsTrimmed path) (hr : full.Reaches path)
    (h : Path.parent? path = some parent) (hparent : disk.HasParent parent) :
    disk.Reaches path := by
  obtain ⟨front, last, tail, htrim, hparts, hlast, hencloses⟩ := Path.parent?_eq_some h
  have hwhole : Path.parts path = front ++ [last] := htrimmed.symm.trans htrim
  have hback : [last].all (· = "") = false := by simp [hlast]
  have hpasses := hr.2
  refine ⟨hr.1, ?_⟩
  rw [hwhole, passes_append_iff hback] at hpasses ⊢
  exact ⟨(hasParent_iff hr.1 hparts h hencloses).mp hparent, passes_last hpasses.2⟩

/-- Where a path has no path around it, it leads to a folder on every disk. -/
theorem isFolder_of_parent?_eq_none (h : Path.parent? path = none)
    (hf : full.isFolder path = true) : disk.isFolder path = true := by
  obtain ⟨tail, hparts, hblank⟩ := Path.parent?_eq_none h
  rw [isFolder_iff_enters] at hf ⊢
  refine ⟨hf.1, enters_of_blank _ ?_⟩
  rw [hparts]
  exact List.forall_mem_cons.mpr ⟨.inl rfl, hblank⟩

/-- Where a folder is there, all folders on the way to it are. -/
theorem isFolder_of_mem_ancestors (hf : disk.isFolder path = true) :
    ∀ ancestor ∈ Path.ancestors path, disk.isFolder ancestor = true := by
  induction path using Path.climbing with
  | top path h => simp [Path.ancestors_of_none h]
  | step path parent h ih =>
      rw [Path.ancestors_of_some h]
      refine List.forall_mem_cons.mpr ⟨hf, ?_⟩
      rcases hasParent_of_reaches (isFolder_iff.mp hf).1 h with rfl | hparent
      · simp [Path.ancestors_of_none Path.parent?_empty]
      · exact ih hparent

/-- No file is in the way of the folders of another disk. -/
def ClearFor (disk full : Disk) : Prop :=
  ∀ place, full.get? place = some .folder →
    disk.get? place = some .folder ∨ disk.get? place = none

/-- Where no file is in the way of a path, it leads to its place or a folder is missing. -/
theorem follow_of_clearFor (hclear : disk.ClearFor full) (h : full.Passes here parts) :
    disk.Passes here parts ∨ disk.follow here parts = .error .notFound := by
  induction here, parts using Place.follow.induct with
  | case1 here => exact .inl trivial
  | case2 here part rest hskip ih =>
      rw [Passes, if_pos hskip] at h ⊢
      rw [follow, if_pos hskip]
      exact ih h
  | case3 here rest hskip ih =>
      rw [Passes, if_neg hskip, if_pos rfl] at h ⊢
      rw [follow, if_neg hskip, if_pos rfl]
      exact ih h
  | case4 here part rest hskip hup ih =>
      rw [Passes, if_neg hskip, if_neg hup] at h ⊢
      obtain ⟨hshort, hrest⟩ := h
      by_cases hall : rest.all (· = "") = true
      · exact .inl ⟨hshort, .inl hall⟩
      · obtain ⟨hfolder, hpasses⟩ := hrest.resolve_left hall
        have hlast : rest ≠ [] := by
          rintro rfl
          exact hall rfl
        rw [follow, if_neg hskip, if_neg hup, if_neg (Nat.not_lt.mpr hshort)]
        simp only [if_neg hlast, hall, Bool.false_eq_true, if_false, false_or]
        rcases hclear _ hfolder with hthere | hmissing
        · rw [hthere]
          exact (ih hpasses).imp_left fun hp => ⟨hshort, rfl, hp⟩
        · rw [hmissing]
          exact .inr rfl

theorem makeFolder_of_not_reaches (hclear : disk.ClearFor full) (hr : full.Reaches path)
    (hno : ¬ disk.Reaches path) : disk.makeFolder path = .error .notFound := by
  have hlocate : disk.locate path = .error .notFound := by
    rw [disk.locate_of_isShort hr.1]
    exact (follow_of_clearFor hclear hr.2).resolve_left fun hp => hno ⟨hr.1, hp⟩
  unfold makeFolder
  rw [hlocate]
  rfl

/-- A folder that can be reached is made, or is there. -/
theorem exists_makeFolder (hclear : disk.ClearFor full) (hf : full.isFolder path = true)
    (hr : disk.Reaches path) : ∃ made, disk.KeepsFolders made ∧ made.ClearFor full ∧
      made.isFolder path = true ∧
      (disk.makeFolder path = .ok made ∨
        made = disk ∧ disk.makeFolder path = .error .alreadyExists) := by
  obtain ⟨-, hfolder⟩ := isFolder_iff.mp hf
  rcases hclear _ hfolder with hthere | hmissing
  · have hthere' := isFolder_iff.mpr ⟨hr, hthere⟩
    exact ⟨disk, .refl disk, hclear, hthere', .inr ⟨rfl, makeFolder_of_isFolder hthere'⟩⟩
  · have hmade := makeFolder_of_reaches hr hmissing
    obtain ⟨hadds, hfolder'⟩ := addsFolders_makeFolder hmade
    refine ⟨_, hadds.addsFolders.keepsFolders, ?_, hfolder', .inl hmade⟩
    intro place hplace
    rcases hadds place with hsame | ⟨-, hput, -⟩
    · rw [hsame]
      exact hclear place hplace
    · exact .inl hput

/-- Climbing to a folder succeeds if it is in no file's way, and if what has been passed can be made
once the folder is there. -/
theorem climb_of_clearFor (htrimmed : Path.IsTrimmed path ∨ path = "/")
    (hfull : full.HasParent path) (hclear : disk.ClearFor full) {passed : List String}
    (hpassed : ∀ made, disk.KeepsFolders made → made.ClearFor full → made.HasParent path →
      (made.makeEach passed).1 = .ok ()) :
    (disk.climb passed (Path.ancestors path)).1 = .ok () := by
  induction path using Path.climbing generalizing passed with
  | top path h =>
      rw [Path.ancestors_of_none h]
      exact hpassed disk (.refl disk) hclear (hfull.imp_right (isFolder_of_parent?_eq_none h))
  | step path parent h ih =>
      rw [Path.ancestors_of_some h]
      have htrim : Path.IsTrimmed path := by
        refine htrimmed.resolve_right ?_
        rintro rfl
        rw [Path.parent?_slash] at h
        cases h
      have hfolder : full.isFolder path = true := by
        refine hfull.resolve_left ?_
        rintro rfl
        rw [Path.parent?_empty] at h
        cases h
      obtain ⟨hreaches, -⟩ := isFolder_iff.mp hfolder
      unfold climb
      by_cases hr : disk.Reaches path
      · obtain ⟨made, hkeeps, hclear', hthere, hmade | ⟨rfl, hmade⟩⟩ :=
          exists_makeFolder hclear hfolder hr
        · simp only [hmade]
          exact hpassed made hkeeps hclear' (.inr hthere)
        · simp only [hmade, hthere, decide_true, Bool.and_self, if_true]
          exact hpassed made hkeeps hclear' (.inr hthere)
      · simp only [makeFolder_of_not_reaches hclear hreaches hr]
        refine ih (Path.isTrimmed_parent h) (hasParent_of_reaches hreaches h) ?_
        -- Once the folder around the path is there, the path itself comes first.
        intro made hkeeps hclear' hparent
        have hr' := reaches_of_hasParent htrim hreaches h hparent
        obtain ⟨made', hkeeps', hclear'', hthere, hmade | ⟨rfl, hmade⟩⟩ :=
          exists_makeFolder hclear' hfolder hr'
        · simp only [makeEach, hmade]
          exact hpassed made' (hkeeps.trans hkeeps') hclear'' (.inr hthere)
        · simp only [makeEach, hmade, hthere, decide_true, Bool.and_self, if_true]
          exact hpassed made' hkeeps hclear'' (.inr hthere)

/-- **A folder can be made wherever no file is in its way.** It is enough that the folder is there
on some disk all of whose folders could be made here. -/
theorem makeFolders_of_clearFor (htrimmed : Path.IsTrimmed path ∨ path = "/")
    (hfull : full.HasParent path) (hclear : disk.ClearFor full) :
    ∃ made, disk.makeFolders path = (.ok (), made) := by
  have hok : (disk.climb [] (Path.ancestors path)).1 = .ok () :=
    climb_of_clearFor htrimmed hfull hclear fun _ _ _ _ => rfl
  unfold makeFolders
  rw [← hok]
  exact ⟨_, rfl⟩

/-- Where a folder has been made it is there, and so are all folders on the way to it. -/
theorem isFolder_ancestors_of_makeFolders {made : Disk}
    (h : disk.makeFolders path = (.ok (), made)) :
    ∀ ancestor ∈ Path.ancestors path, made.isFolder ancestor = true := by
  rcases ancestors_eq path with hnil | ⟨rest, hcons⟩
  · simp [hnil]
  · exact isFolder_of_mem_ancestors (isFolder_of_makeFolders hcons h)

end Disk

end Soundstage
