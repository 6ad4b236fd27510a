import Soundstage.Proofs.Asset.Lasting
import Soundstage.Proofs.Asset.Room
import Soundstage.Proofs.Disk.Ancestors

/-!
# A call that fails leaves the store as it was

Whatever a call to the store fails by, `Store.LeavesBehind` says place by place what it can leave:
folders on the way to the asset, and its empty lock file. The counts and the files of all assets are
as they were, and no temporary file remains. What is left behind is what the next call for the asset
would make anyway, so once nothing is in its way this call ends as if the one before had not been
made.
-/

namespace Soundstage

variable {R σ : Type}

namespace Store

variable {store : Store} {key other : AssetKey} {generate : σ → Except (Failure R) ByteArray × σ}
  {shelf shelf' : Shelf} {disk disk' disk'' before after made made' : Disk} {state state' : σ}
  {failure : Failure R} {content : ByteArray} {n : Nat}

/-- The file of every asset is the same on two disks, or is on neither. -/
def SameAssets (store : Store) (disk disk' : Disk) : Prop :=
  ∀ key, Path.endsOpen (Path.parts (store.pathFor key)) = false → ∀ content,
    disk'.get? (Path.place (store.pathFor key)) = some (.file content) ↔
      disk.get? (Path.place (store.pathFor key)) = some (.file content)

theorem SameAssets.symm (h : store.SameAssets disk disk') : store.SameAssets disk' disk :=
  fun key hopen content => (h key hopen content).symm

theorem SameAssets.trans (h : store.SameAssets disk disk') (h' : store.SameAssets disk' disk'') :
    store.SameAssets disk disk'' :=
  fun key hopen content => (h' key hopen content).trans (h key hopen content)

/-- What a call that fails can change at a place. -/
inductive Remnant (store : Store) (key : AssetKey) (n : Nat) (place : Place) :
    Option Entry → Option Entry → Prop
  | same (entry : Option Entry) : Remnant store key n place entry entry
  /-- A folder on the way to the asset has been made. -/
  | folder {path : String} (h : path ∈ Path.ancestors (store.folder key))
      (hplace : place = Path.place path) : Remnant store key n place none (some .folder)
  /-- The lock file has been made. -/
  | lock (hplace : place = Path.place (lockPath (store.pathFor key))) :
      Remnant store key n place none (some (.file .empty))
  /-- A file that had the name of the temporary file before is gone. -/
  | stale {content : ByteArray}
      (hplace : place = Path.place (store.temporaryPath (store.pathFor key) n)) :
      Remnant store key n place (some (.file content)) none

/-- All that a call that fails can leave behind. -/
def LeavesBehind (store : Store) (key : AssetKey) (n : Nat) (before after : Disk) : Prop :=
  ∀ place, store.Remnant key n place (before.get? place) (after.get? place)

theorem LeavesBehind.keepsFolders (h : store.LeavesBehind key n before after) :
    before.KeepsFolders after := by
  intro place hfolder
  have hplace := h place
  rw [hfolder] at hplace
  generalize after.get? place = entry at hplace
  cases hplace with
  | same => rfl

theorem LeavesBehind.changes (h : store.LeavesBehind key n before after) :
    before.Changes after (store.scratch key n) where
  keeps := h.keepsFolders
  elsewhere := by
    intro place hplace
    have hremnant := h place
    generalize before.get? place = entry, after.get? place = entry' at hremnant
    cases hremnant with
    | same => exact .inl rfl
    | folder => exact .inr ⟨rfl, rfl⟩
    | lock heq => exact absurd (heq ▸ List.mem_cons_self) hplace
    | stale heq => exact absurd (heq ▸ List.mem_cons_of_mem _ List.mem_cons_self) hplace

/-- What is done to both disks alike does not add to what was left behind. -/
theorem LeavesBehind.set (h : store.LeavesBehind key n before after) (place : Place)
    (entry : Option Entry) :
    store.LeavesBehind key n (before.set place entry) (after.set place entry) := by
  intro there
  by_cases hnames : there.names = []
  · rw [Disk.get?_of_names_eq_nil _ hnames, Disk.get?_of_names_eq_nil _ hnames]
    exact .same _
  · by_cases hthere : there = place
    · rw [hthere, Disk.get?_set _ _ (hthere ▸ hnames), Disk.get?_set _ _ (hthere ▸ hnames)]
      exact .same _
    · rw [Disk.get?_set_of_ne _ _ hthere, Disk.get?_set_of_ne _ _ hthere]
      exact h there

/-- Where an asset can be found, its folder is the one around its path. -/
theorem parent?_pathFor (hopen : Path.endsOpen (Path.parts (store.pathFor key)) = false) :
    Path.parent? (store.pathFor key) = some (store.folder key) := by
  obtain ⟨front, name, hparts, hname⟩ := Path.exists_name_of_endsOpen_eq_false hopen
  have hparent := Path.parent?_of_parts hparts hname
  unfold folder folderOf
  rw [hparent, Option.getD_some]

/-- No file that was left behind is in the way of folders that can be made together with the lock
file. -/
theorem LeavesBehind.clearFor (h : store.LeavesBehind key n before after)
    (hadds : before.AddsFolders made)
    (hlock : made.get? (Path.place (lockPath (store.pathFor key))) ≠ some .folder) :
    after.ClearFor made := by
  intro place hfolder
  have hremnant := h place
  rcases hadds place with hsame | ⟨hnone, -⟩
  · rw [← hsame, hfolder] at hremnant
    generalize after.get? place = entry at hremnant ⊢
    cases hremnant with
    | same => exact .inl rfl
  · rw [hnone] at hremnant
    generalize after.get? place = entry at hremnant ⊢
    cases hremnant with
    | same => exact .inr rfl
    | folder => exact .inl rfl
    | lock hplace => exact absurd (hplace ▸ hfolder) hlock

/-- Once the folder of the asset has been made on either disk, both have the same folders. -/
theorem LeavesBehind.folders_iff (h : store.LeavesBehind key n before after)
    (hm : before.makeFolders (store.folder key) = (.ok (), made))
    (hm' : after.makeFolders (store.folder key) = (.ok (), made')) (place : Place) :
    made'.get? place = some .folder ↔ made.get? place = some .folder := by
  have hadds := before.addsFoldersAt_makeFolders (store.folder key)
  have hadds' := after.addsFoldersAt_makeFolders (store.folder key)
  rw [hm] at hadds
  rw [hm'] at hadds'
  have hthere : ∀ path ∈ Path.ancestors (store.folder key),
      made.get? (Path.place path) = some .folder := fun path hpath =>
    (Disk.isFolder_iff.mp (Disk.isFolder_ancestors_of_makeFolders hm path hpath)).2
  have hthere' : ∀ path ∈ Path.ancestors (store.folder key),
      made'.get? (Path.place path) = some .folder := fun path hpath =>
    (Disk.isFolder_iff.mp (Disk.isFolder_ancestors_of_makeFolders hm' path hpath)).2
  constructor
  · intro hfolder
    rcases hadds' place with hsame | ⟨-, -, path, hpath, hplace⟩
    · have hremnant := h place
      rw [← hsame, hfolder] at hremnant
      generalize hbefore : before.get? place = entry at hremnant
      cases hremnant with
      | same => exact hadds.addsFolders.keepsFolders place hbefore
      | folder hpath hplace => exact hplace ▸ hthere _ hpath
    · exact hplace ▸ hthere path hpath
  · intro hfolder
    rcases hadds place with hsame | ⟨-, -, path, hpath, hplace⟩
    · rw [hsame] at hfolder
      exact hadds'.addsFolders.keepsFolders place (h.keepsFolders place hfolder)
    · exact hplace ▸ hthere' path hpath

/-- With the same folders on both disks, the lock file is all that a call can have left behind, and
making it leaves them the same. -/
theorem LeavesBehind.writes_of_touch (h : store.LeavesBehind key n before after)
    (hadds : before.AddsFolders made) (hadds' : after.AddsFolders made')
    (hfolders : ∀ place, made'.get? place = some .folder ↔ made.get? place = some .folder)
    (ht : made.touch (lockPath (store.pathFor key)) = .ok disk)
    (ht' : made'.touch (lockPath (store.pathFor key)) = .ok disk') :
    disk.Writes disk' [Path.place (store.temporaryPath (store.pathFor key) n)] where
  folders := by
    intro place
    rw [(Disk.holds_of_touch ht').1.folders, (Disk.holds_of_touch ht).1.folders]
    exact hfolders place
  elsewhere := by
    intro place hplace
    rw [Disk.get?_of_touch ht, Disk.get?_of_touch ht']
    by_cases hfolder : made.get? place = some .folder
    · rw [hfolder, (hfolders place).mpr hfolder]
    · have hfolder' : made'.get? place ≠ some .folder := fun hg => hfolder ((hfolders place).mp hg)
      have hsame : made.get? place = before.get? place :=
        (hadds place).resolve_right fun hnew => hfolder hnew.2
      have hsame' : made'.get? place = after.get? place :=
        (hadds' place).resolve_right fun hnew => hfolder' hnew.2
      have hremnant := h place
      rw [hsame'] at hfolder'
      rw [hsame, hsame']
      generalize before.get? place = entry, after.get? place = entry' at hremnant hfolder' ⊢
      cases hremnant with
      | same => rfl
      | folder => exact absurd rfl hfolder'
      | lock heq => simp [heq]
      | stale heq => exact absurd (List.mem_singleton.mpr heq) hplace

/-- **What was left behind would have been made anyway.** If the folder and the lock file of an
asset can be made where no call has failed, then they can be made after one that has. The two disks
are then the same, up to an old file that had the name of the temporary file. -/
theorem LeavesBehind.reserve (h : store.LeavesBehind key n before after)
    (hr : store.reserve (store.pathFor key) before
      = ((.ok (), disk) : Except (Failure R) Unit × Disk))
    (hreaches : disk.Reaches (store.pathFor key))
    (hopen : Path.endsOpen (Path.parts (store.pathFor key)) = false) :
    ∃ disk', store.reserve (store.pathFor key) after
        = ((.ok (), disk') : Except (Failure R) Unit × Disk) ∧
      disk.Writes disk' [Path.place (store.temporaryPath (store.pathFor key) n)] := by
  obtain ⟨made, hm, ht⟩ := reserve_eq_ok_iff.mp hr
  obtain ⟨hlock, hlockOpen, hentry⟩ := Disk.touch_eq_ok_iff.mp ht
  have hfree : made.get? (Path.place (lockPath (store.pathFor key))) ≠ some .folder := by
    rcases hentry with ⟨⟨content, hg⟩, -⟩ | ⟨hg, -⟩ <;> simp [hg]
  have hadds := before.addsFolders_makeFolders (store.folder key)
  have hadds' := after.addsFolders_makeFolders (store.folder key)
  rw [folder, hm] at hadds
  have hparent := parent?_pathFor hopen
  have hreaches' : made.Reaches (store.pathFor key) :=
    ((Disk.holds_of_touch ht).1.reaches_iff _).mp hreaches
  obtain ⟨made', hm'⟩ := Disk.makeFolders_of_clearFor (Path.isTrimmed_parent hparent)
    (Disk.hasParent_of_reaches hreaches' hparent) (h.clearFor hadds hfree)
  rw [hm'] at hadds'
  have hfolders := h.folders_iff hm hm'
  have hlock' : made'.Reaches (lockPath (store.pathFor key)) :=
    hlock.mono fun place => (hfolders place).mpr
  obtain ⟨disk', ht'⟩ := Disk.exists_touch hlock' hlockOpen fun hg => hfree ((hfolders _).mp hg)
  exact ⟨disk', reserve_eq_ok_iff.mpr ⟨made', hm', ht'⟩,
    h.writes_of_touch hadds hadds' hfolders ht ht'⟩

end Store

end Soundstage
