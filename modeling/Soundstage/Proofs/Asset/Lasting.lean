import Soundstage.Proofs.Asset.Finding

/-!
# Assets last

An asset that is found goes on to be found with the same bytes, whatever assets the store is asked
for later, and whether these are stored or not. Nothing is assumed of the extension and of the
digests: where two assets have one file, the one that is asked for later is found as well.
-/

namespace Soundstage

variable {R σ : Type}

namespace Path

/-- What stands in front of a text does not change the part behind its last slash. -/
theorem exists_parts_slash {text last : String} (front : String) (h : IsPart last) :
    ∃ before, parts (front ++ (text ++ "/" ++ last)) = before ++ [last] := by
  refine ⟨parts (front ++ text), ?_⟩
  rw [← String.append_assoc, ← String.append_assoc, parts_slash, parts_of_isPart h]

/-- A text with a slash has a last part. -/
theorem exists_eq_slash {text : String} (h : ¬ IsPart text) :
    ∃ front last, text = front ++ "/" ++ last ∧ IsPart last := by
  obtain ⟨before, behind, hsplit, hlast⟩ :=
    List.eq_append_cons_of_mem (List.mem_reverse.mpr (not_not.mp h))
  refine ⟨String.ofList behind.reverse, String.ofList before.reverse,
    String.toList_injective ?_, ?_⟩
  · have hback := congrArg List.reverse hsplit
    simpa using hback
  · simpa [IsPart] using hlast

/-- A joined path ends in what was joined to it. -/
theorem exists_join_eq_append (base name : String) : ∃ front, join base name = front ++ name := by
  unfold join
  split
  · exact ⟨"", String.empty_append.symm⟩
  · split
    · exact ⟨base, rfl⟩
    · exact ⟨base ++ "/", rfl⟩

end Path

namespace Store

variable {store : Store} {key other : AssetKey} {shelf shelf' : Shelf} {disk disk' : Disk}
  {state state' : σ} {generate : σ → Except (Failure R) ByteArray × σ}
  {result : Except (Failure R) String} {content : ByteArray} {path : String}

/-- With a slash in the extension, all assets have the same name in different folders. -/
theorem exists_parts_pathFor (h : ¬ Path.IsPart store.extension) :
    ∃ name, ∀ key, ∃ front, Path.parts (store.pathFor key) = front ++ [name] := by
  obtain ⟨text, name, hext, hname⟩ := Path.exists_eq_slash h
  refine ⟨name, fun key => ?_⟩
  obtain ⟨front, hjoin⟩ := Path.exists_join_eq_append (Path.join store.root key.role.name)
    (key.fileName store.extension)
  have hpath : store.pathFor key = (front ++ (String.ofList (AssetKey.fragment key.text
      ++ '_' :: Digest.leading key.text) ++ ".")) ++ (text ++ "/" ++ name) := by
    unfold pathFor
    rw [hjoin, AssetKey.fileName, hext]
    simp only [String.append_assoc]
  rw [hpath]
  exact Path.exists_parts_slash _ hname

/-- No asset that can be found stands beside another one under a longer name. -/
theorem place_pathFor_ne_sibling (hopen : Path.endsOpen (Path.parts (store.pathFor other)) = false)
    (key : AssetKey) {suffix : String} (hsuffix : Path.IsPart suffix) (hne : suffix ≠ "") :
    Path.place (store.pathFor other) ≠ Path.place (Path.sibling (store.pathFor key) suffix) := by
  by_cases hext : Path.IsPart store.extension
  · rw [place_sibling hext key hsuffix]
    exact place_pathFor_ne_beside hext hne
  · obtain ⟨name, hparts⟩ := exists_parts_pathFor hext
    obtain ⟨front, hother⟩ := hparts other
    obtain ⟨front', hkey⟩ := hparts key
    obtain ⟨before, last, hlast, hdots⟩ := Path.exists_name_of_endsOpen_eq_false hopen
    obtain rfl : last = name := by
      have hnames := (List.append_inj' (hlast.symm.trans hother) rfl).2
      exact (List.cons.inj hnames).1
    rw [Path.place_of_parts hother hdots, Path.place_sibling hkey hdots hsuffix]
    intro heq
    exact hne (String.append_eq_left_iff.mp (Place.child_inj heq).2.symm)

/-- None stands where a temporary file is written. -/
theorem place_pathFor_ne_temporaryPath
    (hopen : Path.endsOpen (Path.parts (store.pathFor other)) = false) (key : AssetKey) (n : Nat) :
    Path.place (store.pathFor other) ≠ Path.place (store.temporaryPath (store.pathFor key) n) :=
  place_pathFor_ne_sibling hopen key (isPart_temporarySuffix store.process n)
    (temporarySuffix_ne_empty store.process n)

/-- Making the folder and the lock file of an asset leaves every file as it is. -/
theorem holds_of_reserve {outcome : Except (Failure R) Unit}
    (hr : store.reserve path disk = (outcome, disk')) {found : String}
    (h : disk.Holds found content) : disk'.Holds found content := by
  have hadds := disk.addsFolders_makeFolders (store.folderOf path)
  simp only [reserve] at hr
  split at hr
  · next fault made hmade =>
      rw [folderOf, hmade] at hadds
      cases hr
      exact (hadds.changes []).holds (by simp) h
  · next made hmade =>
      rw [folderOf, hmade] at hadds
      have hmade' : made.Holds found content := (hadds.changes []).holds (by simp) h
      split at hr
      · cases hr
        exact hmade'
      · next touched htouch =>
          cases hr
          -- A file at the place of the lock stays as it is, too.
          obtain ⟨-, -, ⟨-, rfl⟩ | ⟨hnone, rfl⟩⟩ := Disk.touch_eq_ok_iff.mp htouch
          · exact hmade'
          · have hne : Path.place found ≠ Path.place (lockPath path) := by
              intro heq
              rw [← heq, hmade'.2.1] at hnone
              cases hnone
            have hwrites := (Disk.holds_of_touch htouch).1
            exact (hwrites.holds_iff (by simpa using hne)).mpr hmade'

/-- What is stored at a place that its own path did not lead to before is no other asset. -/
theorem place_ne_of_keep (shelf : Shelf) (hf : shelf.disk.isFile (store.pathFor key) = false)
    (hk : store.keep key content shelf
      = ((.ok path, shelf') : Except (Failure R) String × Shelf)) {found : ByteArray}
    (h : shelf.disk.Holds (store.pathFor other) found) :
    Path.place (store.pathFor other) ≠ Path.place (store.pathFor key) := by
  obtain ⟨-, -, hwrites, hholds, -⟩ := keep_eq_ok hk
  intro heq
  have hreach : shelf.disk.Holds (store.pathFor key) found :=
    ⟨(hwrites.reaches_iff _).mp hholds.1, heq ▸ h.2.1, hholds.2.2⟩
  rw [hreach.isFile] at hf
  cases hf

/-- **Assets last.** A call to the store leaves every asset that is found as it is. -/
theorem Ensures.lasts (h : store.Ensures key generate shelf state result shelf' state')
    (hholds : shelf.disk.Holds (store.pathFor other) content) :
    shelf'.disk.Holds (store.pathFor other) content := by
  cases h with
  | found => exact hholds
  | refused _ hr => exact holds_of_reserve hr hholds
  | overtaken _ hr => exact holds_of_reserve hr hholds
  | failed _ hr => exact holds_of_reserve hr hholds
  | @answered made disk _ _ _ _ hr hf _ hk =>
      have hreserved := holds_of_reserve hr hholds
      have hplace := place_pathFor_ne_temporaryPath hreserved.2.2 key shelf.temporaries
      cases result with
      | error failure =>
          exact ((keep_eq_error hk).1.holds_iff (by simpa using hplace)).mpr hreserved
      | ok path =>
          have hother := place_ne_of_keep { shelf with disk := disk } hf hk hreserved
          obtain ⟨-, -, hwrites, -⟩ := keep_eq_ok hk
          exact (hwrites.holds_iff (by simpa using ⟨hplace, hother⟩)).mpr hreserved

/-- An asset that the store has answered with is found. -/
theorem Ensures.isFile_of_ok (h : store.Ensures key generate shelf state (.ok path) shelf' state') :
    shelf'.disk.isFile (store.pathFor key) = true := by
  cases h with
  | found hf => exact hf
  | overtaken _ _ hf => exact hf
  | answered _ _ _ _ hk => exact (keep_eq_ok hk).2.2.2.1.isFile

/-- The generator is only asked for an asset that is absent. -/
theorem Ensures.state_eq (h : store.Ensures key generate shelf state result shelf' state') :
    state' = state ∨
      shelf.disk.isFile (store.pathFor key) = false ∧ state' = (generate state).2 := by
  cases h with
  | found => exact .inl rfl
  | refused => exact .inl rfl
  | overtaken => exact .inl rfl
  | failed hf _ _ hg => exact .inr ⟨hf, by rw [hg]⟩
  | answered hf _ _ hg => exact .inr ⟨hf, by rw [hg]⟩

end Store

end Soundstage
