import Soundstage.Proofs.Asset.Finding

/-!
# The folder of an asset

All files that are made for an asset stand in the folder of its role. The paths of these files and
of the folder are spelled alike, so that a file is reached once the folder is there. The folders of
both roles are in one place.
-/

namespace Soundstage

namespace Store

variable {store : Store} {key other : AssetKey} {disk disk' made : Disk} {path suffix : String}

/-- The folder of an asset. -/
def folder (store : Store) (key : AssetKey) : String := store.folderOf (store.pathFor key)

/-- The folders on the way to that of an asset. -/
def outer (store : Store) : List String :=
  Path.ancestorsUpTo (Path.folderParts store.root).length
    (if Path.folderParts store.root = [] then ""
      else Path.ofParts (Path.dropTrailing (Path.folderParts store.root)))

theorem not_isBlankPart_name (role : Role) : ¬ Path.IsBlankPart role.name :=
  fun h => role.not_isDots_name (h.imp_right .inl)

theorem parts_folder (hext : Path.IsPart store.extension) (key : AssetKey) :
    Path.parts (store.folder key) = Path.folderParts store.root ++ [key.role.name] := by
  have hparts := parts_pathFor hext key
  have hpart : ∀ part ∈ Path.folderParts store.root ++ [key.role.name], Path.IsPart part :=
    fun part hmem => Path.isPart_of_mem_parts (hparts ▸ List.mem_append_left _ hmem)
  have hne : Path.folderParts store.root ++ [key.role.name] ≠ [] := by simp
  unfold folder folderOf
  rw [Path.parent?_of_parts hparts (key.not_isDots_fileName _), Option.getD_some, if_neg hne,
    Path.dropTrailing_concat _ (not_isBlankPart_name key.role)]
  have hjoined : Path.ofParts (Path.folderParts store.root ++ [key.role.name])
      = "/".intercalate (Path.folderParts store.root ++ [key.role.name]) := by
    have hname : key.role.name ≠ "" := fun heq => key.role.not_isDots_name (.inl heq)
    unfold Path.ofParts
    split
    · next heq =>
        have hlast := congrArg List.getLast? heq
        rw [List.getLast?_concat] at hlast
        exact absurd (Option.some.inj hlast) hname
    · rfl
  rw [hjoined, Path.parts_intercalate hne hpart]

theorem ancestors_folder (hext : Path.IsPart store.extension) (key : AssetKey) :
    Path.ancestors (store.folder key) = store.folder key :: store.outer := by
  have hparts := parts_folder hext key
  have hparent := Path.parent?_of_parts hparts key.role.not_isDots_name
  unfold Path.ancestors
  rw [hparts, List.length_append, List.length_singleton]
  unfold Path.ancestorsUpTo
  rw [hparent]
  rfl

theorem place_folder (hext : Path.IsPart store.extension) (key : AssetKey) :
    Path.place (store.folder key) = store.home.child key.role.name := by
  have hparts := parts_folder hext key
  rw [Path.place_of_parts hparts key.role.not_isDots_name,
    follow_home hparts key.role.not_isDots_name]

/-- The paths of the files that stand beside the file of an asset, or of that file. -/
def NamedBy (store : Store) (key : AssetKey) (path suffix : String) : Prop :=
  Path.parts path = Path.folderParts store.root ++ [key.role.name]
    ++ [key.fileName store.extension ++ suffix]

theorem namedBy_pathFor (hext : Path.IsPart store.extension) (key : AssetKey) :
    store.NamedBy key (store.pathFor key) "" := by
  unfold NamedBy
  rw [parts_pathFor hext key, String.append_empty]

theorem namedBy_sibling (hext : Path.IsPart store.extension) (key : AssetKey)
    (hsuffix : Path.IsPart suffix) :
    store.NamedBy key (Path.sibling (store.pathFor key) suffix) suffix := by
  unfold NamedBy
  rw [Path.parts_sibling (parts_pathFor hext key) (key.not_isDots_fileName _) hsuffix,
    Path.dropTrailing_concat _ (not_isBlankPart_name key.role)]

theorem NamedBy.not_isDots (store : Store) (key : AssetKey) (suffix : String) :
    ¬ Path.IsDots (key.fileName store.extension ++ suffix) :=
  Path.not_isDots_append (key.not_isDots_fileName _)

theorem NamedBy.place (h : store.NamedBy key path suffix) :
    Path.place path = store.beside key suffix := by
  have hparts : Path.parts path = Path.folderParts store.root
      ++ key.role.name :: [key.fileName store.extension ++ suffix] := by
    rw [h, List.append_assoc]
    rfl
  rw [Path.place_of_parts h (not_isDots store key suffix), Place.follow_append,
    Place.follow_of_name _ [] key.role.not_isDots_name,
    follow_home hparts key.role.not_isDots_name]
  rfl

theorem NamedBy.endsOpen (h : store.NamedBy key path suffix) :
    Path.endsOpen (Path.parts path) = false := by
  rw [h]
  exact Path.endsOpen_concat _ (not_isDots store key suffix)

theorem NamedBy.endsInName (h : store.NamedBy key path suffix) :
    Path.endsInName path = true := by
  obtain ⟨hempty, hdots⟩ := not_or.mp (not_isDots store key suffix)
  unfold Path.endsInName
  rw [h, List.filter_append, List.filter_cons_of_pos (by rwa [decide_eq_true_eq]), List.filter_nil,
    List.getLast?_concat]
  simpa using not_or.mp hdots

/-- A file of an asset is reached once the folder is there, if its path is not too long. -/
theorem NamedBy.reaches (h : store.NamedBy key path suffix) (hext : Path.IsPart store.extension)
    (hr : disk.Reaches path) (hf : disk'.isFolder (store.folder key) = true) :
    disk'.Reaches path := by
  have hparts : Path.parts path = Path.folderParts store.root
      ++ key.role.name :: [key.fileName store.extension ++ suffix] := by
    rw [h, List.append_assoc]
    rfl
  have hfolder := parts_folder hext key
  obtain ⟨hshort, hpasses⟩ := hr
  obtain ⟨⟨-, hpasses'⟩, hg⟩ := Disk.isFolder_iff.mp hf
  have hanchor : Path.anchor path = Path.anchor (store.folder key) := by
    rw [anchor_of_home hparts key.role.not_isDots_name,
      anchor_of_home hfolder key.role.not_isDots_name]
  refine ⟨hshort, ?_⟩
  rw [h, Disk.passes_concat_concat_iff key.role.not_isDots_name
    (not_isDots store key suffix)] at hpasses ⊢
  refine ⟨?_, ?_, hpasses.2.2⟩
  · rw [hanchor, ← hfolder]
    exact hpasses'
  · rw [follow_home hparts key.role.not_isDots_name, ← place_folder hext]
    exact hg

theorem folder_eq_of_role (hext : Path.IsPart store.extension) (h : key.role = other.role) :
    store.folder key = store.folder other := by
  unfold folder folderOf
  rw [Path.parent?_of_parts (parts_pathFor hext key) (key.not_isDots_fileName _),
    Path.parent?_of_parts (parts_pathFor hext other) (other.not_isDots_fileName _), h]

theorem beside_ne_child (store : Store) (key : AssetKey) (suffix name : String) :
    store.beside key suffix ≠ store.home.child name := by
  intro heq
  have hlength := congrArg (List.length ·.names) heq
  simp [beside, Place.child] at hlength

/-- Both roles have their folders in one place, so that they are reached or not together. -/
theorem reaches_folder_iff (disk : Disk) (hext : Path.IsPart store.extension)
    (hr : made.Reaches (store.folder key)) (hr' : disk'.Reaches (store.folder other)) :
    disk.Reaches (store.folder key) ↔ disk.Reaches (store.folder other) := by
  have hshort : ∀ role : Role, role.name.utf8ByteSize ≤ Disk.longestName := by
    intro role
    cases role <;> decide
  have hparts := parts_folder hext key
  have hparts' := parts_folder hext other
  unfold Disk.Reaches
  rw [and_iff_right hr.1, and_iff_right hr'.1, hparts, hparts',
    anchor_of_home hparts key.role.not_isDots_name,
    anchor_of_home hparts' other.role.not_isDots_name]
  exact Disk.passes_concat_iff key.role.not_isDots_name other.role.not_isDots_name
    (hshort key.role) (hshort other.role) _

end Store

end Soundstage
