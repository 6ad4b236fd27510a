import Soundstage.Proofs.Asset.Naming
import Soundstage.Proofs.Timeline.Work
import Soundstage.Settings.Basic

/-!
# Addresses of assets

The name of an asset can be taken apart in one way only: into a fragment, a digest and an extension.
Its path is the one of the store, the folder of its role and this name. With an extension that
settings admit the name holds a single point, while the names of lock files and temporary files hold
at least two, so that nothing that is written beside an asset can be taken for one, whichever assets
and stores it belongs to.
-/

namespace Soundstage

/-- Extensions of letters and digits. -/
def IsExtension (extension : String) : Prop :=
  extension ≠ "" ∧ ∀ c ∈ extension.toList, c.isAlphanum = true

instance (extension : String) : Decidable (IsExtension extension) :=
  inferInstanceAs (Decidable (_ ∧ _))

/-- These are the extensions that settings admit. -/
theorem isExtension_iff_admitted {extension : String} : IsExtension extension ↔
    ∃ settings : Settings, settings.check = .ok () ∧ settings.assetExtension = extension := by
  have hunusable : ∀ settings : Settings, settings.check = .ok () ↔ settings.unusable? = none := by
    intro settings
    unfold Settings.check
    cases settings.unusable? <;> simp
  have hdefinition : IsExtension extension ↔
      ¬ (extension.isEmpty || !extension.toList.all Char.isAlphanum) = true := by
    simp [IsExtension]
  rw [hdefinition]
  constructor
  · intro h
    have hcodec : (Text.trimmed ({} : Encoding).codec).isEmpty = false := by decide
    have hinfluence : (0 : Float) ≤ 1.0 ∧ (1.0 : Float) ≤ 1 := by decide
    refine ⟨{ workers := 1, assetExtension := extension }, (hunusable _).mpr ?_, rfl⟩
    unfold Settings.unusable?
    rw [if_neg Nat.one_ne_zero, if_neg h, if_neg (by simp), if_neg (by simp [hcodec]),
      if_pos hinfluence]
  · rintro ⟨settings, hcheck, rfl⟩ h
    have hnone := (hunusable settings).mp hcheck
    unfold Settings.unusable? at hnone
    rw [if_pos h] at hnone
    split at hnone <;> cases hnone

theorem IsExtension.ne_point {extension : String} (h : IsExtension extension) :
    ∀ c ∈ extension.toList, c ≠ '.' ∧ c ≠ '/' := by
  intro c hc
  have halphanum := h.2 c hc
  constructor <;> rintro rfl <;> exact absurd halphanum (by decide)

theorem IsExtension.isPart {extension : String} (h : IsExtension extension) :
    Path.IsPart extension :=
  fun hslash => (h.ne_point _ hslash).2 rfl

section Bytes

/-- A byte as two digits. -/
def Hexadecimal.pair (byte : UInt8) : List Char :=
  [digit (byte.toNat / 16), digit (byte.toNat % 16)]

/-- The bytes of a word, the most significant first. -/
def Digest.bigEndian (w : UInt32) : List UInt8 :=
  [(w >>> 24).toUInt8, (w >>> 16).toUInt8, (w >>> 8).toUInt8, w.toUInt8]

/-- The 32 bytes of a digest. -/
def Digest.State.bytes (s : Digest.State) : List UInt8 :=
  [s.a, s.b, s.c, s.d, s.e, s.f, s.g, s.h].flatMap Digest.bigEndian

theorem Hexadecimal.pair_toUInt8 (w : UInt32) :
    pair w.toUInt8 = [digit (w.toNat / 16 % 16), digit (w.toNat % 16)] := by
  have hhigh : w.toNat % 256 / 16 = w.toNat / 16 % 16 := by omega
  have hlow : w.toNat % 256 % 16 = w.toNat % 16 := by omega
  rw [pair, UInt32.toNat_toUInt8, hhigh, hlow]

theorem Hexadecimal.fixed_eight (n : Nat) : fixed 8 n
    = [digit ((n >>> 24) / 16 % 16), digit ((n >>> 24) % 16), digit ((n >>> 16) / 16 % 16),
      digit ((n >>> 16) % 16), digit ((n >>> 8) / 16 % 16), digit ((n >>> 8) % 16),
      digit (n / 16 % 16), digit (n % 16)] := by
  simp only [Nat.shiftRight_eq_div_pow, Nat.div_div_eq_div_mul]
  have hrange : List.range 8 = [0, 1, 2, 3, 4, 5, 6, 7] := rfl
  rw [fixed, hrange]
  simp

theorem Digest.hexWord_eq (w : UInt32) :
    hexWord w = (bigEndian w).flatMap Hexadecimal.pair := by
  simp only [hexWord, Hexadecimal.fixed_eight, bigEndian, List.flatMap_cons, List.flatMap_nil,
    Hexadecimal.pair_toUInt8, UInt32.toNat_shiftRight]
  rfl

/-- The digest in a name is the first half of the digest of the text, byte by byte. -/
theorem Digest.leading_eq (text : String) : leading text
    = ((sha256 text.toUTF8.data.toList).bytes.take 16).flatMap Hexadecimal.pair := by
  have htake : ∀ s : State, s.bytes.take 16
      = bigEndian s.a ++ bigEndian s.b ++ bigEndian s.c ++ bigEndian s.d := fun _ => rfl
  rw [htake, leading]
  simp only [Digest.hexWord_eq, List.flatMap_append]

end Bytes

namespace AssetKey

/-- What the name of an asset consists of. -/
@[ext]
structure NameParts where
  fragment : List Char
  digest : List Char
  extension : String

/-- 32 lowercase hexadecimal digits. -/
def IsDigest (s : List Char) : Prop := s.length = 32 ∧ ∀ c ∈ s, c ∈ "0123456789abcdef".toList

/-- A name is written with these parts: words with dashes between them, 32 digits and an extension,
with an underscore and a point between them. -/
def NameParts.Spell (parts : NameParts) (name : String) : Prop :=
  IsFragment parts.fragment ∧ IsDigest parts.digest ∧ IsExtension parts.extension ∧
    name = String.ofList (parts.fragment ++ '_' :: parts.digest) ++ "." ++ parts.extension

theorem isDigest_leading (text : String) : IsDigest (Digest.leading text) := by
  refine ⟨Digest.length_leading text, fun c hc => ?_⟩
  obtain ⟨n, hn, rfl⟩ := Digest.mem_leading hc
  have hall : ∀ m < 16, Hexadecimal.digit m ∈ "0123456789abcdef".toList := by decide
  exact hall n hn

theorem IsDigest.ne_point {s : List Char} (h : IsDigest s) : ∀ c ∈ s, c ≠ '.' := by
  intro c hc
  have hall : ∀ d ∈ "0123456789abcdef".toList, d ≠ '.' := by simp
  exact hall c (h.2 c hc)

theorem IsFragment.ne_underscore {s : List Char} (h : IsFragment s) : ∀ c ∈ s, c ≠ '_' := by
  intro c hc
  rcases h.mem hc with (hlower | hdigit) | rfl
  · rintro rfl
    exact absurd hlower (by decide)
  · rintro rfl
    exact absurd hdigit (by decide)
  · decide

/-- A name is spelled by one combination of parts only. -/
theorem NameParts.Spell.unique {parts other : NameParts} {name : String} (h : parts.Spell name)
    (h' : other.Spell name) : parts = other := by
  obtain ⟨hfragment, hdigest, -, hname⟩ := h
  obtain ⟨hfragment', hdigest', -, hname'⟩ := h'
  have hlist := congrArg String.toList (hname.symm.trans hname')
  simp only [String.toList_append, String.toList_ofList, List.append_assoc, List.cons_append]
    at hlist
  obtain ⟨hfragments, hrest⟩ :=
    append_cons_inj hfragment.ne_underscore hfragment'.ne_underscore hlist
  obtain ⟨hdigests, hextensions⟩ :=
    append_cons_inj hdigest.ne_point hdigest'.ne_point hrest
  exact NameParts.ext hfragments hdigests (String.toList_injective hextensions)

/-- The parts of the name of an asset. -/
def nameParts (key : AssetKey) (extension : String) : NameParts :=
  ⟨fragment key.text, Digest.leading key.text, extension⟩

theorem spell_nameParts (key : AssetKey) {extension : String} (h : IsExtension extension) :
    (key.nameParts extension).Spell (key.fileName extension) :=
  ⟨isFragment_fragment key.text, isDigest_leading key.text, h, rfl⟩

/-- So the name of an asset can be taken apart in one way. -/
theorem spell_fileName_iff {key : AssetKey} {extension : String} (h : IsExtension extension)
    {parts : NameParts} :
    parts.Spell (key.fileName extension) ↔ parts = key.nameParts extension := by
  constructor
  · intro hspell
    exact hspell.unique (spell_nameParts key h)
  · rintro rfl
    exact spell_nameParts key h

theorem fileName_inj {key other : AssetKey} {extension extension' : String}
    (h : IsExtension extension) (h' : IsExtension extension') :
    key.fileName extension = other.fileName extension' ↔
      key.nameParts extension = other.nameParts extension' := by
  constructor
  · intro heq
    exact (spell_fileName_iff h').mp (heq ▸ spell_nameParts key h)
  · intro hparts
    obtain ⟨hfragment, hdigest, hextension⟩ := NameParts.mk.inj hparts
    rw [fileName, fileName, hfragment, hdigest, hextension]

/-- Relative paths agree where the role and the parts of the name do. -/
theorem relativePath_inj {key other : AssetKey} {extension extension' : String}
    (h : IsExtension extension) (h' : IsExtension extension') :
    key.relativePath extension = other.relativePath extension' ↔
      key.role = other.role ∧ key.nameParts extension = other.nameParts extension' := by
  rw [← fileName_inj h h']
  constructor
  · intro heq
    have hlist := congrArg String.toList heq
    simp only [relativePath, String.toList_append, List.append_assoc] at hlist
    have hlength : ∀ role : Role, role.name.toList.length = 5 := by
      rintro (_ | _) <;> rfl
    obtain ⟨hrole, hrest⟩ := List.append_inj hlist ((hlength _).trans (hlength _).symm)
    exact ⟨Role.name_injective (String.toList_injective hrole),
      String.toList_injective (List.append_cancel_left hrest)⟩
  · rintro ⟨hrole, hname⟩
    rw [relativePath, relativePath, hrole, hname]

end AssetKey

namespace Path

/-- The parts of a path that mean something: the first one, which is empty for the root, and of the
others those that are neither empty nor a single point. The empty path has none. -/
def components (path : String) : List String :=
  if path = "" then []
  else match parts path with
    | [] => []
    | first :: rest => first :: rest.filter fun part => part ≠ "" && part ≠ "."

/-- A part that names something in the folder before it. -/
def IsName (part : String) : Prop := IsPart part ∧ ¬ IsDots part

theorem components_of_parts {path first : String} {rest : List String} (hne : path ≠ "")
    (h : parts path = first :: rest) :
    components path = first :: rest.filter fun part => part ≠ "" && part ≠ "." := by
  rw [components, if_neg hne, h]

/-- A name that is joined to a path is one component more. -/
theorem components_join (base : String) {name : String} (h : IsName name) :
    components (join base name) = components base ++ [name] := by
  obtain ⟨hpart, hdots⟩ := h
  obtain ⟨hempty, hpoint, -⟩ := not_or.mp hdots |>.imp_right not_or.mp
  have hparts := parts_join base hpart
  have hne : join base name ≠ "" := by
    intro heq
    rw [heq, parts_of_isPart (by decide)] at hparts
    have hlast := congrArg List.getLast? hparts
    rw [List.getLast?_concat] at hlast
    exact hempty (Option.some.inj hlast).symm
  have hkept : ([name].filter fun part => part ≠ "" && part ≠ ".") = [name] := by
    simp [hempty, hpoint]
  have hcomponents : ∀ {first rest}, folderParts base = first :: rest →
      components (join base name)
        = (first :: rest.filter fun part => part ≠ "" && part ≠ ".") ++ [name] := by
    intro first rest hfolder
    rw [hfolder, List.cons_append] at hparts
    rw [components_of_parts hne hparts, List.filter_append, hkept, List.cons_append]
  by_cases hbase : base = ""
  · subst hbase
    have hjoin : parts (join "" name) = [name] := hparts
    rw [components_of_parts hne hjoin]
    rfl
  · obtain ⟨first, rest, hfirst⟩ := List.exists_cons_of_ne_nil (parts_ne_nil base)
    rw [components_of_parts hbase hfirst]
    by_cases hslash : base.endsWith "/" = true
    · -- The empty part behind the last slash means nothing.
      obtain ⟨start, rfl⟩ := endsWith_slash_iff.mp hslash
      obtain ⟨initial, rest', hstart⟩ := List.exists_cons_of_ne_nil (parts_ne_nil start)
      rw [parts_append_slash, hstart, List.cons_append] at hfirst
      cases hfirst
      have hfolder : folderParts (start ++ "/") = first :: rest' := by
        rw [folderParts, if_neg hbase, if_pos hslash, parts_append_slash, List.dropLast_concat,
          hstart]
      rw [hcomponents hfolder, List.filter_append]
      simp
    · have hfolder : folderParts base = first :: rest := by
        rw [folderParts, if_neg hbase, if_neg hslash, hfirst]
      exact hcomponents hfolder

end Path

namespace Store

variable {store : Store} {key other : AssetKey} {path : String}

theorem isName_name (role : Role) : Path.IsName role.name :=
  ⟨role.isPart_name, role.not_isDots_name⟩

theorem isName_fileName (h : IsExtension store.extension) (key : AssetKey) :
    Path.IsName (key.fileName store.extension) :=
  ⟨key.isPart_fileName h.isPart, key.not_isDots_fileName _⟩

/-- The path of an asset is the one of the store and two names. -/
theorem components_pathFor (h : IsExtension store.extension) (key : AssetKey) :
    Path.components (store.pathFor key)
      = Path.components store.root ++ [key.role.name, key.fileName store.extension] := by
  rw [pathFor, Path.components_join _ (isName_fileName h key),
    Path.components_join _ (isName_name key.role), List.append_assoc]
  rfl

/-- The paths of lock files and temporary files, of whatever stores and assets. -/
def IsAuxiliary (path : String) : Prop :=
  ∃ (store : Store) (key : AssetKey), IsExtension store.extension ∧
    (path = lockPath (store.pathFor key) ∨ ∃ n, path = store.temporaryPath (store.pathFor key) n)

/-- What is written beside an asset is named after it, with a suffix that holds a point. -/
theorem IsAuxiliary.exists_suffix (h : IsAuxiliary path) :
    ∃ (store : Store) (key : AssetKey) (suffix : String), IsExtension store.extension ∧
      Path.IsPart suffix ∧ '.' ∈ suffix.toList ∧
      path = Path.sibling (store.pathFor key) suffix := by
  obtain ⟨store, key, hext, rfl | ⟨n, rfl⟩⟩ := h
  · exact ⟨store, key, lockSuffix, hext, isPart_lockSuffix, by decide, lockPath_eq _⟩
  · refine ⟨store, key, temporarySuffix store.process n, hext,
      isPart_temporarySuffix store.process n, ?_, temporaryPath_eq _ n⟩
    simp [temporarySuffix]

/-- No asset stands where a lock file or a temporary file does. -/
theorem place_pathFor_ne_of_isAuxiliary (h : IsExtension store.extension)
    (haux : IsAuxiliary path) : Path.place (store.pathFor key) ≠ Path.place path := by
  obtain ⟨store', other, suffix, hext, hpart, hpoint, rfl⟩ := haux.exists_suffix
  rw [place_pathFor h.isPart, place_sibling hext.isPart other hpart]
  intro heq
  obtain ⟨-, hextension⟩ := AssetKey.stem_eq_of_fileName_append_eq (Place.child_inj heq).2
  -- The point of the suffix would be one of the extension.
  have hmem : '.' ∈ store.extension.toList := by
    rw [← String.append_empty (s := store.extension), hextension, String.toList_append]
    exact List.mem_append_right _ hpoint
  exact (h.ne_point _ hmem).1 rfl

/-- Assets of a store that stand at one place have one role and one name. -/
theorem place_pathFor_inj (h : IsExtension store.extension) :
    Path.place (store.pathFor key) = Path.place (store.pathFor other) ↔
      key.role = other.role ∧
        key.nameParts store.extension = other.nameParts store.extension := by
  rw [← AssetKey.fileName_inj h h, place_pathFor h.isPart, place_pathFor h.isPart]
  constructor
  · intro heq
    obtain ⟨hrole, -, -⟩ := beside_inj heq
    have hname := (Place.child_inj heq).2
    rw [String.append_empty, String.append_empty] at hname
    exact ⟨hrole, hname⟩
  · rintro ⟨hrole, hname⟩
    rw [beside, beside, hrole, hname]

theorem lookup_eq_some {disk : Disk} (h : store.lookup key disk = some path) :
    path = store.pathFor key := by
  unfold lookup at h
  split at h
  · exact (Option.some.inj h).symm
  · cases h

end Store

/-- **Names of assets are unambiguous.** With extensions that settings admit, a name is spelled in
one way only, by a fragment of words and single dashes, the first sixteen bytes of the digest of the
text as 32 digits, and the extension. Two assets have the same relative path, or the same place in a
store, exactly if they have the same role and the same parts of the name. The path of an asset is
the one of the store and two names. It is the path of no lock file and of no temporary file, and it
leads to none of them, so that what is found under the name of an asset is never one of these. -/
theorem AssetKey.address_unambiguous (store : Store) (key other : AssetKey) (extension : String)
    (h : IsExtension store.extension) (h' : IsExtension extension) :
    (∀ parts : NameParts, parts.Spell (key.fileName store.extension) ↔
        parts = ⟨fragment key.text,
          ((Digest.sha256 key.text.toUTF8.data.toList).bytes.take 16).flatMap Hexadecimal.pair,
          store.extension⟩) ∧
      (key.relativePath store.extension = other.relativePath extension ↔
        key.role = other.role ∧ fragment key.text = fragment other.text ∧
          Digest.leading key.text = Digest.leading other.text ∧ store.extension = extension) ∧
      (Path.place (store.pathFor key) = Path.place (store.pathFor other) ↔
        key.role = other.role ∧ fragment key.text = fragment other.text ∧
          Digest.leading key.text = Digest.leading other.text) ∧
      (Path.components (store.pathFor key)
          = Path.components store.root ++ [key.role.name, key.fileName store.extension] ∧
        Path.IsName key.role.name ∧ Path.IsName (key.fileName store.extension)) ∧
      ∀ path, Store.IsAuxiliary path →
        store.pathFor key ≠ path ∧ Path.place (store.pathFor key) ≠ Path.place path ∧
          ∀ disk found, store.lookup key disk = some found →
            Path.place found ≠ Path.place path := by
  refine ⟨fun parts => ?_, ?_, ?_, ?_, fun path haux => ?_⟩
  · rw [← Digest.leading_eq]
    exact spell_fileName_iff h
  · rw [relativePath_inj h h', NameParts.ext_iff]
    rfl
  · rw [Store.place_pathFor_inj h, NameParts.ext_iff]
    simp [nameParts]
  · exact ⟨Store.components_pathFor h key, Store.isName_name key.role,
      Store.isName_fileName h key⟩
  · have hplace : Path.place (store.pathFor key) ≠ Path.place path :=
      Store.place_pathFor_ne_of_isAuxiliary h haux
    refine ⟨fun heq => hplace (congrArg Path.place heq), hplace, fun disk found hfound => ?_⟩
    rw [Store.lookup_eq_some hfound]
    exact hplace

/-- Two texts that share a fragment have names of their own, and neither is that of a lock. -/
theorem AssetKey.address_unambiguous_hello :
    IsExtension "opus" ∧
      (⟨.voice, "Hello!"⟩ : AssetKey).relativePath "opus"
        ≠ (⟨.voice, "hello?"⟩ : AssetKey).relativePath "opus" ∧
      fragment "Hello!" = fragment "hello?" ∧
      steadySetup.store.pathFor ⟨.voice, "Hello!"⟩
        ≠ Store.lockPath (steadySetup.store.pathFor ⟨.voice, "hello?"⟩) ∧
      Path.components (steadySetup.store.pathFor ⟨.voice, "Hello!"⟩)
        = ["cache", "voice", (⟨.voice, "Hello!"⟩ : AssetKey).fileName "opus"] := by
  have hext : IsExtension "opus" := by simp [IsExtension]
  obtain ⟨-, hrelative, -, ⟨hcomponents, -, -⟩, hauxiliary⟩ :=
    AssetKey.address_unambiguous steadySetup.store ⟨.voice, "Hello!"⟩ ⟨.voice, "hello?"⟩ "opus"
      hext hext
  have hfragment : fragment "Hello!" = fragment "hello?" := by decide
  have hdigest : Digest.leading "Hello!" ≠ Digest.leading "hello?" := by decide +kernel
  have hroot : Path.components steadySetup.store.root = ["cache"] := by decide +kernel
  refine ⟨hext, fun heq => hdigest (hrelative.mp heq).2.2.1, hfragment, ?_, ?_⟩
  · have haux : Store.IsAuxiliary
        (Store.lockPath (steadySetup.store.pathFor ⟨.voice, "hello?"⟩)) :=
      ⟨steadySetup.store, ⟨.voice, "hello?"⟩, hext, .inl rfl⟩
    exact (hauxiliary _ haux).1
  · rw [hcomponents, hroot]
    rfl

end Soundstage
