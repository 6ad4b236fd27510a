import Soundstage.Asset.Store
import Soundstage.Proofs.Asset.Wording
import Soundstage.Proofs.Disk.Sibling

/-!
# The files of the assets are apart

An asset, its lock file and its temporary files are named after the digest of the text and stand in
the folder of the role. So two of these files stand at one place only if they belong to the same
role and digest and have the same suffix. In particular no asset ever stands where another one, a
lock file or a temporary file does.
-/

namespace Soundstage

theorem Digest.length_leading (text : String) : (Digest.leading text).length = 32 := by
  simp [Digest.leading, Digest.hexWord, Hexadecimal.fixed]

theorem Digest.mem_leading {text : String} {c : Char} (h : c ∈ Digest.leading text) :
    ∃ n < 16, c = Hexadecimal.digit n := by
  simp only [Digest.leading, Digest.hexWord, Hexadecimal.fixed, List.mem_append,
    List.mem_map] at h
  rcases h with ((⟨i, -, rfl⟩ | ⟨i, -, rfl⟩) | ⟨i, -, rfl⟩) | ⟨i, -, rfl⟩ <;>
    exact ⟨_, Nat.mod_lt _ (by decide), rfl⟩

namespace AssetKey

/-- Texts that differ have different digests. -/
def Apart (key other : AssetKey) : Prop :=
  Digest.leading key.text = Digest.leading other.text → key.text = other.text

theorem Apart.refl (key : AssetKey) : key.Apart key := fun _ => rfl

/-- The part of a file name before the point. -/
def stem (text : String) : List Char := fragment text ++ '_' :: Digest.leading text

theorem toList_fileName (key : AssetKey) (extension : String) :
    (key.fileName extension).toList = stem key.text ++ '.' :: extension.toList := by
  simp [fileName, stem]

/-- A stem holds neither points nor slashes. -/
theorem mem_stem {text : String} {c : Char} (h : c ∈ stem text) : c ≠ '.' ∧ c ≠ '/' := by
  rcases List.mem_append.mp h with hf | hrest
  · rcases (isFragment_fragment text).mem hf with (hlower | hdigit) | rfl
    · constructor <;> rintro rfl <;> revert hlower <;> decide
    · constructor <;> rintro rfl <;> revert hdigit <;> decide
    · decide
  · rcases List.mem_cons.mp hrest with rfl | hd
    · decide
    · obtain ⟨n, hn, rfl⟩ := Digest.mem_leading hd
      have hall : ∀ m < 16, Hexadecimal.digit m ≠ '.' ∧ Hexadecimal.digit m ≠ '/' := by decide
      exact hall n hn

theorem leading_eq_of_stem_eq {text other : String} (h : stem text = stem other) :
    Digest.leading text = Digest.leading other := by
  have hlength : ('_' :: Digest.leading text).length = ('_' :: Digest.leading other).length := by
    simp [Digest.length_leading]
  exact (List.cons.inj (List.append_inj' h hlength).2).2

theorem isPart_fileName (key : AssetKey) {extension : String} (h : Path.IsPart extension) :
    Path.IsPart (key.fileName extension) := by
  unfold Path.IsPart
  rw [toList_fileName, List.mem_append, List.mem_cons]
  rintro (hstem | hslash | hext)
  · exact (mem_stem hstem).2 rfl
  · exact absurd hslash (by decide)
  · exact h hext

theorem not_isDots_fileName (key : AssetKey) (extension : String) :
    ¬ Path.IsDots (key.fileName extension) := by
  have hmem : '_' ∈ (key.fileName extension).toList := by simp [toList_fileName, stem]
  rintro (h | h | h) <;> rw [h] at hmem <;> revert hmem <;> decide

/-- What stands before a separator is determined by a text if it does not hold the separator. -/
theorem append_cons_inj {separator : Char} {s t u v : List Char} (hs : ∀ c ∈ s, c ≠ separator)
    (ht : ∀ c ∈ t, c ≠ separator) (h : s ++ separator :: u = t ++ separator :: v) :
    s = t ∧ u = v := by
  have htake := congrArg (List.takeWhile (· ≠ separator)) h
  rw [List.takeWhile_append_of_pos fun c hc => by simpa using hs c hc,
    List.takeWhile_append_of_pos fun c hc => by simpa using ht c hc,
    List.takeWhile_cons_of_neg (by simp), List.takeWhile_cons_of_neg (by simp),
    List.append_nil, List.append_nil] at htake
  rw [htake] at h
  exact ⟨htake, (List.cons.inj (List.append_cancel_left h)).2⟩

/-- Names that agree behind any suffixes have the same stem. -/
theorem stem_eq_of_fileName_append_eq {key other : AssetKey}
    {extension extension' suffix suffix' : String}
    (h : key.fileName extension ++ suffix = other.fileName extension' ++ suffix') :
    stem key.text = stem other.text ∧ extension ++ suffix = extension' ++ suffix' := by
  have hlist := congrArg String.toList h
  simp only [String.toList_append, toList_fileName, List.append_assoc, List.cons_append] at hlist
  obtain ⟨hstem, hrest⟩ := append_cons_inj (fun c hc => (mem_stem hc).1)
    (fun c hc => (mem_stem hc).1) hlist
  exact ⟨hstem, String.toList_injective (by simpa using hrest)⟩

/-- Names in a folder that agree behind any suffixes have the same digest and the same suffix. -/
theorem fileName_append_inj {key other : AssetKey} {extension suffix suffix' : String}
    (h : key.fileName extension ++ suffix = other.fileName extension ++ suffix') :
    Digest.leading key.text = Digest.leading other.text ∧ suffix = suffix' := by
  obtain ⟨hstem, hrest⟩ := stem_eq_of_fileName_append_eq h
  exact ⟨leading_eq_of_stem_eq hstem, (String.append_right_inj extension).mp hrest⟩

end AssetKey

theorem Role.isPart_name (role : Role) : Path.IsPart role.name := by
  cases role <;> decide

theorem Role.not_isDots_name (role : Role) : ¬ Path.IsDots role.name := by
  cases role <;> decide

theorem Role.name_injective : Function.Injective Role.name := by
  intro role other h
  cases role <;> cases other <;> first | rfl | exact absurd h (by decide)

theorem Nat.isPart_repr (n : Nat) : Path.IsPart n.repr := by
  intro h
  rw [Nat.toList_repr] at h
  have hdigit := Nat.isDigit_of_mem_toDigits (by decide) (by decide) h
  exact absurd hdigit (by decide)

namespace Store

variable {store : Store} {key other : AssetKey} {suffix suffix' : String}

/-- What the name of a lock file ends in. -/
def lockSuffix : String := ".lock"

/-- What the names of temporary files end in. -/
def temporarySuffix (process n : Nat) : String := "." ++ process.repr ++ "." ++ n.repr ++ ".tmp"

theorem lockPath_eq (path : String) : lockPath path = Path.sibling path lockSuffix := rfl

theorem temporaryPath_eq (path : String) (n : Nat) :
    store.temporaryPath path n = Path.sibling path (temporarySuffix store.process n) := rfl

theorem isPart_lockSuffix : Path.IsPart lockSuffix := by decide

theorem isPart_temporarySuffix (process n : Nat) : Path.IsPart (temporarySuffix process n) := by
  have hpoint : Path.IsPart "." := by decide
  have hend : Path.IsPart ".tmp" := by decide
  exact (((hpoint.append (Nat.isPart_repr process)).append hpoint).append
    (Nat.isPart_repr n)).append hend

/-- A lock file is no temporary file. -/
theorem lockSuffix_ne_temporarySuffix (process n : Nat) :
    lockSuffix ≠ temporarySuffix process n := by
  intro h
  have hlist : ['.', 'l', 'o', 'c'] ++ ['k']
      = ("." ++ process.repr ++ "." ++ n.repr ++ ".tm").toList ++ ['p'] := by
    simpa [lockSuffix, temporarySuffix] using congrArg String.toList h
  exact absurd (List.append_inj' hlist rfl).2 (by decide)

theorem temporarySuffix_ne_empty (process n : Nat) : temporarySuffix process n ≠ "" := by
  intro h
  have hlist := congrArg String.toList h
  simp [temporarySuffix] at hlist

theorem not_isDots_temporarySuffix (process n : Nat) :
    ¬ Path.IsDots (temporarySuffix process n) := by
  rw [Path.isDots_iff]
  intro h
  have hlength := h.1
  simp [temporarySuffix] at hlength
  omega

/-- The lock file of a file never stands where one of its temporary files does. -/
theorem place_lockPath_ne_temporaryPath (path : String) (n : Nat) :
    Path.place (lockPath path) ≠ Path.place (store.temporaryPath path n) :=
  Path.place_sibling_ne isPart_lockSuffix (isPart_temporarySuffix _ _) (by decide)
    (not_isDots_temporarySuffix _ _) (lockSuffix_ne_temporarySuffix _ _)

theorem parts_pathFor (h : Path.IsPart store.extension) (key : AssetKey) :
    Path.parts (store.pathFor key)
      = Path.folderParts store.root ++ [key.role.name] ++ [key.fileName store.extension] := by
  unfold pathFor
  have hfolder := Path.parts_join store.root key.role.isPart_name
  have hname : key.role.name ≠ "" := fun h => key.role.not_isDots_name (.inl h)
  rw [Path.parts_join _ (key.isPart_fileName h), Path.folderParts_of_parts hfolder hname]

/-- The place of the folder that holds the folders of the roles. -/
def home (store : Store) : Place :=
  (⟨if (Path.folderParts store.root).head? = some "" then .root else .above 0, []⟩ : Place).follow
    (Path.folderParts store.root)

/-- The place of a file that is named after an asset, with a suffix. -/
def beside (store : Store) (key : AssetKey) (suffix : String) : Place :=
  (store.home.child key.role.name).child (key.fileName store.extension ++ suffix)

/-- Whatever stands behind the parts of the root, the path starts from the same anchor. -/
theorem anchor_of_home {path name : String} {rest : List String}
    (h : Path.parts path = Path.folderParts store.root ++ name :: rest)
    (hname : ¬ Path.IsDots name) : Path.anchor path
      = if (Path.folderParts store.root).head? = some "" then .root else .above 0 := by
  cases hroot : Path.folderParts store.root with
  | nil =>
      have hne : name ≠ "" := fun heq => hname (.inl heq)
      rw [hroot] at h
      rw [Path.anchor_of_parts h]
      simp [hne]
  | cons first others =>
      rw [hroot] at h
      rw [Path.anchor_of_parts h]
      simp

/-- So the parts of the root lead to the same place. -/
theorem follow_home {path name : String} {rest : List String}
    (h : Path.parts path = Path.folderParts store.root ++ name :: rest)
    (hname : ¬ Path.IsDots name) :
    (⟨Path.anchor path, []⟩ : Place).follow (Path.folderParts store.root) = store.home := by
  rw [anchor_of_home h hname]
  rfl

theorem home_eq (h : Path.IsPart store.extension) (key : AssetKey) :
    (⟨Path.anchor (store.pathFor key), []⟩ : Place).follow
      (Path.folderParts store.root ++ [key.role.name]) = store.home.child key.role.name := by
  have hparts : Path.parts (store.pathFor key)
      = Path.folderParts store.root ++ key.role.name :: [key.fileName store.extension] := by
    rw [parts_pathFor h key, List.append_assoc]
    rfl
  rw [Place.follow_append, Place.follow_of_name _ [] key.role.not_isDots_name,
    follow_home hparts key.role.not_isDots_name]
  rfl

theorem place_sibling (h : Path.IsPart store.extension) (key : AssetKey)
    (hsuffix : Path.IsPart suffix) :
    Path.place (Path.sibling (store.pathFor key) suffix) = store.beside key suffix := by
  rw [Path.place_sibling (parts_pathFor h key) (key.not_isDots_fileName _) hsuffix,
    home_eq h key, beside]

theorem place_pathFor (h : Path.IsPart store.extension) (key : AssetKey) :
    Path.place (store.pathFor key) = store.beside key "" := by
  rw [Path.place_of_parts (parts_pathFor h key) (key.not_isDots_fileName _), home_eq h key, beside,
    String.append_empty]

/-- Files that are named after assets stand at one place only if they have the same role, digest
and suffix. -/
theorem beside_inj (h : store.beside key suffix = store.beside other suffix') :
    key.role = other.role ∧ Digest.leading key.text = Digest.leading other.text ∧
      suffix = suffix' := by
  obtain ⟨hfolder, hname⟩ := Place.child_inj h
  obtain ⟨hdigest, hsuffix⟩ := AssetKey.fileName_append_inj hname
  exact ⟨Role.name_injective (Place.child_inj hfolder).2, hdigest, hsuffix⟩

theorem beside_eq_iff (hapart : key.Apart other) :
    store.beside key suffix = store.beside other suffix' ↔ key = other ∧ suffix = suffix' := by
  constructor
  · intro h
    obtain ⟨hrole, hdigest, hsuffix⟩ := beside_inj h
    obtain ⟨role, text⟩ := key
    obtain ⟨role', text'⟩ := other
    have htext : text = text' := hapart hdigest
    obtain rfl : role = role' := hrole
    exact ⟨by rw [htext], hsuffix⟩
  · rintro ⟨rfl, rfl⟩
    rfl

/-- The lock file and the temporary files of an asset never stand at the place of any asset. -/
theorem place_pathFor_ne_beside (h : Path.IsPart store.extension) (hsuffix : suffix ≠ "") :
    Path.place (store.pathFor other) ≠ store.beside key suffix := by
  rw [place_pathFor h]
  intro heq
  exact hsuffix (beside_inj heq).2.2.symm

/-- Two assets never stand at one place. -/
theorem place_pathFor_ne (h : Path.IsPart store.extension) (hapart : key.Apart other)
    (hne : other ≠ key) : Path.place (store.pathFor other) ≠ Path.place (store.pathFor key) := by
  rw [place_pathFor h, place_pathFor h]
  intro heq
  exact hne ((beside_eq_iff hapart).mp heq.symm).1.symm

end Store

end Soundstage
