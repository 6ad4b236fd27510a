import Soundstage.Proofs.Asset.Folder

/-!
# Room for assets

An asset can be stored if its folder can be made and no folder is in the way of its own file, of its
lock file and of its temporary files: `Store.Fits`. This stays so while other assets are stored. The
folder of the other role is the only thing that can come between, and making it makes the same
folders on the way.
-/

namespace Soundstage

variable {R : Type}

namespace Store

variable {store : Store} {key other : AssetKey} {disk disk' made : Disk} {path : String}
  {first last : Nat}

/-- The files that are made for an asset, with temporary files of some numbers. -/
inductive Needs (store : Store) (key : AssetKey) (first last : Nat) : String → Prop
  | asset : Needs store key first last (store.pathFor key)
  | lock : Needs store key first last (lockPath (store.pathFor key))
  | temporary (n : Nat) : first ≤ n → n < last →
      Needs store key first last (store.temporaryPath (store.pathFor key) n)

theorem Needs.namedBy (h : store.Needs key first last path) (hext : Path.IsPart store.extension) :
    ∃ suffix, store.NamedBy key path suffix := by
  cases h with
  | asset => exact ⟨_, namedBy_pathFor hext key⟩
  | lock => exact ⟨_, namedBy_sibling hext key isPart_lockSuffix⟩
  | temporary n => exact ⟨_, namedBy_sibling hext key (isPart_temporarySuffix store.process n)⟩

/-- The paths of the files lead somewhere, and no folder is in their way. -/
def Suits (store : Store) (key : AssetKey) (first last : Nat) (disk : Disk) : Prop :=
  ∀ path, store.Needs key first last path →
    disk.Reaches path ∧ disk.get? (Path.place path) ≠ some .folder

theorem Suits.writes {touched : List Place} (h : store.Suits key first last disk)
    (hwrites : disk.Writes disk' touched) : store.Suits key first last disk' := by
  intro path hpath
  obtain ⟨hr, hfree⟩ := h path hpath
  exact ⟨(hwrites.reaches_iff path).mpr hr, fun hg => hfree ((hwrites.folders _).mp hg)⟩

/-- The folder of an asset can be made, and then suits its files. -/
def Fits (store : Store) (key : AssetKey) (first last : Nat) (disk : Disk) : Prop :=
  ∃ made, disk.makeFolders (store.folder key) = (.ok (), made) ∧ store.Suits key first last made

/-- Making the folder of the other role puts no folder in the way of a file that has room. -/
theorem Suits.get?_ne_folder (h : store.Suits key first last made)
    (hext : Path.IsPart store.extension)
    (hmade : disk.makeFolders (store.folder key) = (.ok (), made))
    (hmade' : disk.makeFolders (store.folder other) = (.ok (), disk'))
    (hpath : store.Needs key first last path) : disk'.get? (Path.place path) ≠ some .folder := by
  obtain ⟨suffix, hnamed⟩ := hpath.namedBy hext
  have hne : ∀ key : AssetKey, Path.place path ≠ Path.place (store.folder key) := by
    intro key
    rw [hnamed.place, place_folder hext]
    exact beside_ne_child store _ _ _
  have hfolder :=
    Disk.isFolder_iff.mp (Disk.isFolder_of_makeFolders (ancestors_folder hext key) hmade)
  have hfolder' :=
    Disk.isFolder_iff.mp (Disk.isFolder_of_makeFolders (ancestors_folder hext other) hmade')
  have hiff := reaches_folder_iff disk hext hfolder.1 hfolder'.1
  intro hg
  refine (h path hpath).2 ?_
  rcases Disk.makeFolders_cases (ancestors_folder hext key) hmade with ⟨hr, hsame⟩ | ⟨hr, hsame⟩ <;>
    rcases Disk.makeFolders_cases (ancestors_folder hext other) hmade' with
      ⟨hr', hsame'⟩ | ⟨hr', hsame'⟩
  · rw [hsame _ (hne key), ← hsame' _ (hne other)]
    exact hg
  · exact absurd (hiff.mp hr) hr'
  · exact absurd (hiff.mpr hr') hr
  · rw [hsame _ (hne key), ← hsame' _ (hne other)]
    exact hg

/-- Where the folder of an asset can be made, no file stands at its place, also after the folder of
another asset and files in it have been made. -/
theorem makeFolders_folder {touched : List Place} (hext : Path.IsPart store.extension)
    (hm : disk.makeFolders (store.folder key) = (.ok (), made)) {made' : Disk}
    (hm' : disk.makeFolders (store.folder other) = (.ok (), made'))
    (hwrites : made'.Writes disk' touched)
    (htouched : ∀ place ∈ touched, ∃ suffix, place = store.beside other suffix) :
    ∃ again, disk'.makeFolders (store.folder key) = (.ok (), again) ∧
      again.isFolder (store.folder key) = true ∧
      ∀ place, place ≠ Path.place (store.folder key) → again.get? place = disk'.get? place := by
  have hfolder := Disk.isFolder_iff.mp (Disk.isFolder_of_makeFolders (ancestors_folder hext key) hm)
  have hfolder' :=
    Disk.isFolder_iff.mp (Disk.isFolder_of_makeFolders (ancestors_folder hext other) hm')
  have hr : disk'.Reaches (store.folder key) := by
    rw [hwrites.reaches_iff, reaches_folder_iff made' hext hfolder.1 hfolder'.1]
    exact hfolder'.1
  have hentry : disk'.get? (Path.place (store.folder key)) = none ∨
      disk'.get? (Path.place (store.folder key)) = some .folder := by
    have hplace : Path.place (store.folder key) ∉ touched := by
      intro hmem
      obtain ⟨suffix, heq⟩ := htouched _ hmem
      rw [place_folder hext] at heq
      exact beside_ne_child store other suffix _ heq.symm
    rw [hwrites.elsewhere _ hplace]
    have hadds := disk.addsFolders_makeFolders (store.folder key) (Path.place (store.folder key))
    have hadds' := disk.addsFolders_makeFolders (store.folder other) (Path.place (store.folder key))
    rw [hm, hfolder.2] at hadds
    rw [hm'] at hadds'
    rcases hadds' with hsame | ⟨-, hmade⟩
    · rw [hsame]
      rcases hadds with hthere | ⟨hnone, -⟩
      · exact .inr hthere.symm
      · exact .inl hnone
    · exact .inr hmade
  rcases hentry with hnone | hthere
  · have hput := Disk.makeFolder_of_reaches hr hnone
    refine ⟨disk'.put (Path.place (store.folder key)) .folder, ?_, ?_, ?_⟩
    · unfold Disk.makeFolders
      rw [ancestors_folder hext key]
      simp only [Disk.climb, hput, Disk.makeEach]
    · exact (Disk.addsFolders_makeFolder hput).2
    · exact fun place hplace => disk'.get?_put_of_ne _ hplace
  · have hisFolder := Disk.isFolder_iff.mpr ⟨hr, hthere⟩
    exact ⟨disk', Disk.makeFolders_of_isFolder hisFolder, hisFolder, fun _ _ => rfl⟩

/-- An asset has room while files of other assets are made. -/
theorem Fits.step {touched : List Place} (h : store.Fits key first last disk)
    (hext : Path.IsPart store.extension)
    (hmade : disk.makeFolders (store.folder other) = (.ok (), made))
    (hwrites : made.Writes disk' touched)
    (htouched : ∀ place ∈ touched, ∃ suffix, place = store.beside other suffix) :
    store.Fits key first last disk' := by
  obtain ⟨m, hm, hsuits⟩ := h
  by_cases hrole : key.role = other.role
  · rw [← folder_eq_of_role hext hrole, hm] at hmade
    cases hmade
    refine ⟨disk', ?_, hsuits.writes hwrites⟩
    have hok : (disk.makeFolders (store.folder key)).1 = .ok () := by rw [hm]
    refine Disk.makeFolders_again hok ?_
    rw [hm]
    exact hwrites.keeps
  · obtain ⟨again, hagain, hfolder, hsame⟩ := makeFolders_folder hext hm hmade hwrites htouched
    refine ⟨again, hagain, ?_⟩
    intro path hpath
    obtain ⟨suffix, hnamed⟩ := hpath.namedBy hext
    refine ⟨hnamed.reaches hext (hsuits path hpath).1 hfolder, ?_⟩
    have hne : Path.place path ≠ Path.place (store.folder key) := by
      rw [hnamed.place, place_folder hext]
      exact beside_ne_child store _ _ _
    rw [hsame _ hne]
    intro hg
    exact hsuits.get?_ne_folder hext hm hmade hpath ((hwrites.folders _).mp hg)

/-- An asset that is absent can be stored: its folder, its lock file and, with any of the next
temporary files, its own file can be made. -/
def CanStore (R : Type) (store : Store) (room : Nat) (shelf : Shelf) (key : AssetKey) : Prop :=
  shelf.disk.isFile (store.pathFor key) = false → ∃ disk,
    store.reserve (store.pathFor key) shelf.disk
        = ((.ok (), disk) : Except (Failure R) Unit × Disk) ∧
      ∀ n < room, ∀ content, (store.writeWhole (store.pathFor key) content
          { shelf with disk := disk, temporaries := shelf.temporaries + n } :
        Except (Failure R) Unit × Shelf).1 = .ok ()

/-- Whether an asset can be stored, tried out with empty files. -/
def canStore (R : Type) (store : Store) (room : Nat) (shelf : Shelf) (key : AssetKey) : Bool :=
  shelf.disk.isFile (store.pathFor key) ||
    match (store.reserve (store.pathFor key) shelf.disk :
        Except (Failure R) Unit × Disk) with
    | (.ok (), disk) => (List.range room).all fun n =>
        (store.writeWhole (store.pathFor key) .empty
            { shelf with disk := disk, temporaries := shelf.temporaries + n } :
          Except (Failure R) Unit × Shelf).1.isOk
    | (.error _, _) => false

/-- Empty files show it for all. -/
theorem canStore_iff {room : Nat} {shelf : Shelf} :
    store.canStore R room shelf key = true ↔ store.CanStore R room shelf key := by
  unfold canStore CanStore
  cases hf : shelf.disk.isFile (store.pathFor key) with
  | true => simp
  | false =>
      match hr : (store.reserve (store.pathFor key) shelf.disk :
          Except (Failure R) Unit × Disk) with
      | (.error failure, disk) => simp
      | (.ok (), disk) =>
          have hok : ∀ {outcome : Except (Failure R) Unit},
              outcome.isOk = true ↔ outcome = .ok () := by
            intro outcome
            cases outcome <;> simp [Except.isOk, Except.toBool]
          simp only [Bool.false_or, List.all_eq_true, List.mem_range, hok, true_implies]
          constructor
          · intro h
            refine ⟨disk, rfl, fun n hn content => ?_⟩
            exact writeWhole_isOk_iff.mpr (writeWhole_isOk_iff.mp (h n hn))
          · rintro ⟨_, hdisk, h⟩ n hn
            cases hdisk
            exact h n hn .empty

instance {room : Nat} {shelf : Shelf} : Decidable (store.CanStore R room shelf key) :=
  decidable_of_iff _ canStore_iff

/-- What can be stored fits. -/
theorem CanStore.fits {room : Nat} {shelf : Shelf} (h : store.CanStore R room shelf key)
    (hf : shelf.disk.isFile (store.pathFor key) = false) (hroom : 0 < room) :
    store.Fits key shelf.temporaries (shelf.temporaries + room) shelf.disk := by
  obtain ⟨disk, hreserve, hwrite⟩ := h hf
  obtain ⟨made, hmade, htouch⟩ := reserve_eq_ok_iff.mp hreserve
  refine ⟨made, hmade, ?_⟩
  have hwrites := (Disk.holds_of_touch htouch).1
  have hback : ∀ {path}, disk.Reaches path → disk.get? (Path.place path) ≠ some .folder →
      made.Reaches path ∧ made.get? (Path.place path) ≠ some .folder := by
    intro path hr hfree
    exact ⟨(hwrites.reaches_iff path).mp hr, fun hg => hfree ((hwrites.folders _).mpr hg)⟩
  intro path hpath
  cases hpath with
  | asset =>
      obtain ⟨-, hr, -, -, hfree⟩ := writeWhole_isOk_iff.mp (hwrite 0 hroom .empty)
      exact hback hr hfree
  | lock =>
      obtain ⟨hr, -, hthere⟩ := Disk.touch_eq_ok_iff.mp htouch
      refine ⟨hr, ?_⟩
      rcases hthere with ⟨⟨content, hg⟩, -⟩ | ⟨hg, -⟩ <;> simp [hg]
  | temporary n hfirst hlast =>
      obtain ⟨m, rfl⟩ := Nat.exists_eq_add_of_le hfirst
      obtain ⟨⟨hr, -, hfree⟩, -⟩ := writeWhole_isOk_iff.mp (hwrite m (by omega) .empty)
      exact hback hr hfree

/-- What fits can be stored, with a temporary file that it has room for. -/
theorem Fits.canStore {shelf : Shelf} (h : store.Fits key first last shelf.disk)
    (hext : Path.IsPart store.extension) (hfirst : first ≤ shelf.temporaries)
    (hlast : shelf.temporaries < last) (R : Type) : store.CanStore R 1 shelf key := by
  intro _
  obtain ⟨made, hmade, hsuits⟩ := h
  have hasset := namedBy_pathFor hext key
  have hlock := namedBy_sibling hext key isPart_lockSuffix
  have htemporary :=
    namedBy_sibling hext key (isPart_temporarySuffix store.process shelf.temporaries)
  obtain ⟨hr, hfree⟩ := hsuits _ .lock
  obtain ⟨disk, htouch⟩ := Disk.exists_touch hr hlock.endsOpen hfree
  have hsuits' := hsuits.writes (Disk.holds_of_touch htouch).1
  refine ⟨disk, reserve_eq_ok_iff.mpr ⟨made, hmade, htouch⟩, ?_⟩
  intro n hn content
  obtain rfl : n = 0 := by omega
  obtain ⟨hr', hfree'⟩ := hsuits' _ (.temporary _ hfirst hlast)
  obtain ⟨hr'', hfree''⟩ := hsuits' _ .asset
  exact writeWhole_isOk_iff.mpr
    ⟨⟨hr', htemporary.endsOpen, hfree'⟩, hr'', hasset.endsInName, hasset.endsOpen, hfree''⟩

/-- The keys of a list whose assets are absent. -/
def absentees (store : Store) (keys : List AssetKey) (disk : Disk) : List AssetKey :=
  keys.filter fun key => !disk.isFile (store.pathFor key)

theorem mem_absentees_iff {keys : List AssetKey} :
    key ∈ store.absentees keys disk ↔
      key ∈ keys ∧ disk.isFile (store.pathFor key) = false := by
  simp [absentees]

/-- If no asset has gone, those that are absent were so before. -/
theorem absentees_eq_filter {keys : List AssetKey}
    (hkeeps : ∀ key ∈ keys, disk.isFile (store.pathFor key) = true →
      disk'.isFile (store.pathFor key) = true) :
    store.absentees keys disk'
      = (store.absentees keys disk).filter fun key => !disk'.isFile (store.pathFor key) := by
  unfold absentees
  rw [List.filter_filter]
  refine List.filter_congr fun key hkey => ?_
  cases hf : disk.isFile (store.pathFor key) with
  | false => simp
  | true => simp [hkeeps key hkey hf]

/-- A shelf has room for the assets that it lacks: there are temporary files for all of them. -/
structure Roomy (store : Store) (keys : List AssetKey) (first last : Nat) (shelf : Shelf) :
    Prop where
  begun : first ≤ shelf.temporaries
  left : shelf.temporaries + (store.absentees keys shelf.disk).length ≤ last
  fits : ∀ key ∈ store.absentees keys shelf.disk, store.Fits key first last shelf.disk

theorem Roomy.canStore {keys : List AssetKey} {shelf : Shelf}
    (h : store.Roomy keys first last shelf) (hext : Path.IsPart store.extension)
    (hkey : key ∈ keys) (R : Type) : store.CanStore R 1 shelf key := by
  intro hf
  have hmem : key ∈ store.absentees keys shelf.disk := mem_absentees_iff.mpr ⟨hkey, hf⟩
  have hpos := List.length_pos_of_mem hmem
  have hleft := h.left
  exact (h.fits key hmem).canStore hext h.begun (by omega) R hf

/-- There is room at the beginning if each asset can be stored. -/
theorem roomy_begin {keys : List AssetKey} {shelf : Shelf}
    (h : ∀ key ∈ keys, store.CanStore R keys.length shelf key) :
    store.Roomy keys shelf.temporaries (shelf.temporaries + keys.length) shelf where
  begun := Nat.le_refl _
  left := Nat.add_le_add_left (List.length_filter_le _ _) _
  fits := by
    intro key hmem
    obtain ⟨hkey, hf⟩ := mem_absentees_iff.mp hmem
    exact (h key hkey).fits hf (List.length_pos_of_mem hkey)

/-- There is room while files of one asset are made, if a temporary file is only taken when the
asset is stored. -/
theorem Roomy.step {keys : List AssetKey} {touched : List Place} {shelf shelf' : Shelf}
    (h : store.Roomy keys first last shelf) (hext : Path.IsPart store.extension)
    (hkeeps : ∀ key ∈ keys, shelf.disk.isFile (store.pathFor key) = true →
      shelf'.disk.isFile (store.pathFor key) = true)
    (hmade : shelf.disk.makeFolders (store.folder other) = (.ok (), made))
    (hwrites : made.Writes shelf'.disk touched)
    (htouched : ∀ place ∈ touched, ∃ suffix, place = store.beside other suffix)
    (hstored : shelf'.temporaries = shelf.temporaries ∨
      shelf'.temporaries = shelf.temporaries + 1 ∧ other ∈ store.absentees keys shelf.disk ∧
        shelf'.disk.isFile (store.pathFor other) = true) :
    store.Roomy keys first last shelf' := by
  have hfilter := absentees_eq_filter hkeeps
  have hbegun := h.begun
  have hleft := h.left
  refine ⟨?_, ?_, ?_⟩
  · rcases hstored with heq | ⟨heq, -⟩ <;> omega
  · rw [hfilter]
    rcases hstored with heq | ⟨heq, hmem, hthere⟩
    · have hle := List.length_filter_le (fun key => !shelf'.disk.isFile (store.pathFor key))
        (store.absentees keys shelf.disk)
      omega
    · have hlt : ((store.absentees keys shelf.disk).filter fun key =>
          !shelf'.disk.isFile (store.pathFor key)).length
            < (store.absentees keys shelf.disk).length :=
        List.length_filter_lt_length_iff_exists.mpr ⟨other, hmem, by simp [hthere]⟩
      omega
  · intro key hmem
    rw [hfilter] at hmem
    exact (h.fits key (List.mem_filter.mp hmem).1).step hext hmade hwrites htouched

end Store

end Soundstage
