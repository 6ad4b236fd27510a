import Mathlib.Data.List.TakeWhile
import Soundstage.Proofs.Disk.Parts
import Soundstage.Proofs.Disk.Target

/-!
# Files beside each other

A sibling of a file stands in the same folder under a longer name, so it never stands at the place
of the file itself. `place_sibling` says this for every path that ends in a name, however the
folders before the name are written.
-/

namespace Soundstage

namespace Place

theorem follow_append (here : Place) (front back : List String) :
    here.follow (front ++ back) = (here.follow front).follow back := by
  induction front generalizing here with
  | nil => rfl
  | cons part rest ih =>
      simp only [List.cons_append, follow, ih]
      split
      · rfl
      · split <;> rfl

end Place

namespace Path

variable {path name suffix : String} {front : List String}

/-- Parts that mean nothing behind the first one. -/
def IsBlankPart (part : String) : Prop := part = "" ∨ part = "."

theorem isAbsolute_iff : isAbsolute path = true ↔ ∃ rest, path.toList = '/' :: rest := by
  unfold isAbsolute
  rw [String.startsWith_string_iff]
  constructor
  · rintro ⟨rest, h⟩
    exact ⟨rest, h.symm⟩
  · rintro ⟨rest, h⟩
    exact ⟨rest, h.symm⟩

/-- The anchor of a path, by its parts. -/
theorem anchor_of_parts {first : String} {rest : List String} (h : parts path = first :: rest) :
    anchor path = if first = "" ∧ rest ≠ [] then .root else .above 0 := by
  unfold anchor
  congr 1
  rw [eq_iff_iff, isAbsolute_iff]
  unfold parts at h
  cases htext : path.toList with
  | nil =>
      rw [htext] at h
      simp only [Text.pieces, List.map_cons, List.map_nil, List.cons.injEq] at h
      simp [← h.2]
  | cons c others =>
      rw [htext] at h
      cases hp : Text.pieces '/' others with
      | nil => exact absurd hp (Text.pieces_ne_nil others)
      | cons piece pieces =>
          by_cases hc : c = '/'
          · simp only [Text.pieces, if_pos hc, hp, List.map_cons, List.cons.injEq] at h
            simp [hc, ← h.1, ← h.2]
          · simp only [Text.pieces, if_neg hc, hp, List.map_cons, List.cons.injEq] at h
            have hne : first ≠ "" := by
              rw [← h.1]
              simp [← String.toList_inj]
            simp [hc, hne]

theorem not_isAbsolute_of_isPart (h : IsPart name) : isAbsolute name = false := by
  rw [← Bool.not_eq_true, isAbsolute_iff]
  rintro ⟨rest, hrest⟩
  exact h (hrest ▸ by simp)

theorem endsWith_slash_iff {base : String} :
    base.endsWith "/" = true ↔ ∃ front : String, base = front ++ "/" := by
  rw [← String.endsWith_toSlice, String.Slice.endsWith_string_iff, String.copy_toSlice]
  constructor
  · rintro ⟨front, h⟩
    refine ⟨String.ofList front, String.toList_injective ?_⟩
    simp [← h]
  · rintro ⟨front, rfl⟩
    exact ⟨front.toList, by simp⟩

theorem parts_append_slash (text : String) : parts (text ++ "/") = parts text ++ [""] := by
  have hempty : parts "" = [""] := parts_of_isPart (by simp [IsPart])
  rw [← hempty, ← parts_slash]
  simp

/-- The parts of the folder that a name is joined to. -/
def folderParts (base : String) : List String :=
  if base = "" then [] else if base.endsWith "/" then (parts base).dropLast else parts base

theorem parts_join (base : String) (h : IsPart name) :
    parts (join base name) = folderParts base ++ [name] := by
  unfold join folderParts
  simp only [not_isAbsolute_of_isPart h, Bool.false_or, decide_eq_true_eq]
  by_cases hempty : base = ""
  · simp [hempty, parts_of_isPart h]
  · rw [if_neg hempty, if_neg hempty]
    by_cases hslash : base.endsWith "/" = true
    · obtain ⟨start, hstart⟩ := endsWith_slash_iff.mp hslash
      rw [if_pos hslash, if_pos hslash, hstart, parts_append_slash, List.dropLast_concat,
        parts_slash, parts_of_isPart h]
    · rw [if_neg hslash, if_neg hslash, parts_slash, parts_of_isPart h]

theorem folderParts_of_parts {base : String} (h : parts base = front ++ [name])
    (hname : name ≠ "") : folderParts base = front ++ [name] := by
  unfold folderParts
  have hempty : base ≠ "" := by
    rintro rfl
    rw [parts_of_isPart (by simp [IsPart])] at h
    have hlast := congrArg List.getLast? h
    rw [List.getLast?_concat] at hlast
    exact hname (Option.some.inj hlast).symm
  have hslash : ¬ base.endsWith "/" = true := by
    intro hends
    obtain ⟨start, rfl⟩ := endsWith_slash_iff.mp hends
    rw [parts_append_slash] at h
    have hlast := (List.append_inj' h rfl).2
    exact hname (List.cons.inj hlast).1.symm
  rw [if_neg hempty, if_neg hslash, h]

theorem dropTrailing_append (list : List String) :
    ∃ tail, list = dropTrailing list ++ tail ∧ ∀ part ∈ tail, IsBlankPart part := by
  cases list with
  | nil => exact ⟨[], rfl, by simp⟩
  | cons first rest =>
      let blank : String → Bool := fun part => part = "" || part = "."
      refine ⟨(rest.reverse.takeWhile blank).reverse, ?_, ?_⟩
      · have h := congrArg List.reverse (List.takeWhile_append_dropWhile (p := blank)
          (l := rest.reverse))
        rw [List.reverse_append, List.reverse_reverse] at h
        exact congrArg (first :: ·) h.symm
      · intro part hpart
        have hp := List.mem_takeWhile_imp (List.mem_reverse.mp hpart)
        simpa [blank, IsBlankPart] using hp

theorem dropTrailing_concat (front : List String) (h : ¬ IsBlankPart name) :
    dropTrailing (front ++ [name]) = front ++ [name] := by
  obtain ⟨h1, h2⟩ := not_or.mp h
  cases front with
  | nil => rfl
  | cons first rest => simp [dropTrailing, h1, h2]

/-- What dropping leaves behind the first part ends in a part that means something. -/
theorem dropTrailing_cons (first : String) (rest : List String) :
    dropTrailing (first :: rest) = [first] ∨
      ∃ inner last, dropTrailing (first :: rest) = first :: inner ++ [last] ∧
        ¬ IsBlankPart last := by
  let blank : String → Bool := fun part => part = "" || part = "."
  have hdrop : dropTrailing (first :: rest) = first :: (rest.reverse.dropWhile blank).reverse := rfl
  cases hkept : rest.reverse.dropWhile blank with
  | nil => exact .inl (by simp [hdrop, hkept])
  | cons last inner =>
      refine .inr ⟨inner.reverse, last, by simp [hdrop, hkept], ?_⟩
      have hlast := List.head_dropWhile_not (p := blank) (l := rest.reverse) (by simp [hkept])
      simpa [hkept, blank, IsBlankPart] using hlast

theorem folderParts_ofParts (hne : front ≠ []) (h : ∀ part ∈ front, IsPart part) :
    folderParts (ofParts (dropTrailing front)) = dropTrailing front := by
  obtain ⟨first, rest, rfl⟩ := List.exists_cons_of_ne_nil hne
  obtain ⟨tail, htail, -⟩ := dropTrailing_append (first :: rest)
  have hparts : ∀ part ∈ dropTrailing (first :: rest), IsPart part := by
    intro part hpart
    apply h
    rw [htail]
    exact List.mem_append_left tail hpart
  rcases dropTrailing_cons first rest with hone | ⟨inner, last, hmany, hlast⟩
  · rw [hone] at hparts ⊢
    by_cases hfirst : first = ""
    · subst hfirst
      decide +kernel
    · have hjoined : ofParts [first] = first := by simp [ofParts, hfirst]
      have hfirstParts : parts first = [] ++ [first] := parts_of_isPart (hparts first (by simp))
      rw [hjoined, folderParts_of_parts hfirstParts hfirst, List.nil_append]
  · rw [hmany] at hparts ⊢
    have hjoined : ofParts (first :: inner ++ [last])
        = "/".intercalate (first :: inner ++ [last]) := by
      cases inner <;> simp [ofParts]
    have hpath : parts (ofParts (first :: inner ++ [last])) = first :: inner ++ [last] := by
      rw [hjoined, parts_intercalate (by simp) hparts]
    exact folderParts_of_parts hpath fun hl => hlast (.inl hl)

/-- The name of a path is what is behind its last slash. -/
theorem fileName?_of_parts (h : parts path = front ++ [name]) (hname : ¬ IsDots name) :
    fileName? path = some name := by
  obtain ⟨h1, h2, h3⟩ := not_or.mp hname |>.imp_right not_or.mp
  unfold fileName? trimmedParts
  rw [h, dropTrailing_concat front fun hb => hname (hb.imp_right .inl), List.getLast?_concat]
  simp [h1, h2, h3]

theorem parent?_of_parts (h : parts path = front ++ [name]) (hname : ¬ IsDots name) :
    parent? path = some (if front = [] then "" else ofParts (dropTrailing front)) := by
  have htrim : trimmedParts path = front ++ [name] := by
    rw [trimmedParts, h, dropTrailing_concat front fun hb => hname (hb.imp_right .inl)]
  unfold parent?
  rw [htrim]
  cases front with
  | nil => simp [show name ≠ "" from fun hn => hname (.inl hn)]
  | cons first rest =>
      have hlast : (first :: rest ++ [name]).dropLast = first :: rest := List.dropLast_concat
      cases rest <;> simp_all

theorem parts_withFileName {other : String} (h : parts path = front ++ [name])
    (hname : ¬ IsDots name) (hother : IsPart other) :
    parts (withFileName path other) = dropTrailing front ++ [other] := by
  have hpart : ∀ part ∈ front, IsPart part := fun part hp =>
    isPart_of_mem_parts (h ▸ List.mem_append_left [name] hp)
  unfold withFileName
  rw [fileName?_of_parts h hname, parent?_of_parts h hname]
  simp only [Option.getD_some]
  rw [parts_join _ hother]
  by_cases hfront : front = []
  · subst hfront
    rfl
  · rw [if_neg hfront, folderParts_ofParts hfront hpart]

theorem parts_sibling (h : parts path = front ++ [name]) (hname : ¬ IsDots name)
    (hsuffix : IsPart suffix) :
    parts (sibling path suffix) = dropTrailing front ++ [name ++ suffix] := by
  unfold sibling
  rw [fileName?_of_parts h hname]
  exact parts_withFileName h hname ((isPart_of_parts_eq h).append hsuffix)

end Path

namespace Place

theorem follow_of_blank (here : Place) {parts : List String}
    (h : ∀ part ∈ parts, Path.IsBlankPart part) : here.follow parts = here := by
  induction parts with
  | nil => rfl
  | cons part rest ih =>
      have hpart : part = "" ∨ part = "." := h part List.mem_cons_self
      simpa [follow, hpart] using ih fun other ho => h other (List.mem_cons_of_mem _ ho)

theorem follow_dropTrailing (here : Place) (parts : List String) :
    here.follow (Path.dropTrailing parts) = here.follow parts := by
  obtain ⟨tail, htail, hblank⟩ := Path.dropTrailing_append parts
  have h := follow_append here (Path.dropTrailing parts) tail
  rw [← htail, follow_of_blank _ hblank] at h
  exact h.symm

end Place

namespace Path

variable {path name suffix : String} {front : List String}

theorem place_of_parts (h : parts path = front ++ [name]) (hname : ¬ IsDots name) :
    place path = ((⟨anchor path, []⟩ : Place).follow front).child name := by
  rw [place, h, Place.follow_append, Place.follow_of_name _ [] hname]
  rfl

theorem endsOpen_concat (front : List String) (hname : ¬ IsDots name) :
    endsOpen (front ++ [name]) = false := by
  induction front with
  | nil => simp [endsOpen, hname]
  | cons part rest ih => simpa [endsOpen] using ih

/-- A path that can name a file has a name behind its last slash. -/
theorem exists_name_of_endsOpen_eq_false {list : List String} (h : endsOpen list = false) :
    ∃ front name, list = front ++ [name] ∧ ¬ IsDots name := by
  induction list with
  | nil => cases h
  | cons part rest ih =>
      unfold endsOpen at h
      split at h
      · obtain ⟨front, name, rfl, hname⟩ := ih h
        exact ⟨part :: front, name, rfl, hname⟩
      · next hlast =>
          obtain ⟨hname, hrest⟩ := not_or.mp hlast
          exact ⟨[], part, by simp [not_not.mp hrest], hname⟩

theorem isDots_iff {text : String} :
    IsDots text ↔ text.toList.length ≤ 2 ∧ ∀ c ∈ text.toList, c = '.' := by
  constructor
  · rintro (rfl | rfl | rfl) <;> simp
  · rintro ⟨hlength, hall⟩
    have hreplicate := List.eq_replicate_of_mem hall
    have hcases : text.toList.length = 0 ∨ text.toList.length = 1 ∨ text.toList.length = 2 := by
      omega
    rcases hcases with h | h | h <;> rw [h] at hreplicate
    · exact .inl (String.toList_injective hreplicate)
    · exact .inr (.inl (String.toList_injective hreplicate))
    · exact .inr (.inr (String.toList_injective hreplicate))

theorem not_isDots_append (hname : ¬ IsDots name) : ¬ IsDots (name ++ suffix) := by
  intro h
  rw [isDots_iff, String.toList_append, List.length_append] at h
  exact hname (isDots_iff.mpr ⟨by omega, fun c hc => h.2 c (List.mem_append_left _ hc)⟩)

theorem not_isDots_append_right (hsuffix : ¬ IsDots suffix) : ¬ IsDots (name ++ suffix) := by
  intro h
  rw [isDots_iff, String.toList_append, List.length_append] at h
  exact hsuffix (isDots_iff.mpr ⟨by omega, fun c hc => h.2 c (List.mem_append_right _ hc)⟩)

theorem isPart_fileName? (h : fileName? path = some name) : IsPart name := by
  unfold fileName? at h
  split at h
  · next last hlast =>
      have hmem : last ∈ parts path := by
        obtain ⟨tail, htail, -⟩ := dropTrailing_append (parts path)
        rw [htail]
        exact List.mem_append_left tail (List.mem_of_getLast? hlast)
      split at h
      · cases h
      · cases h
        exact isPart_of_mem_parts hmem
  · cases h

/-- Siblings of one path differ in the ends of their last parts only, whatever the path. -/
theorem exists_parts_sibling (path : String) :
    ∃ front name, ∀ suffix, IsPart suffix →
      parts (sibling path suffix) = front ++ [name ++ suffix] := by
  cases hname : fileName? path with
  | none =>
      refine ⟨folderParts path, "", fun suffix hsuffix => ?_⟩
      unfold sibling withFileName
      rw [hname]
      exact parts_join path (IsPart.append (by decide) hsuffix)
  | some name =>
      refine ⟨folderParts ((parent? path).getD ""), name, fun suffix hsuffix => ?_⟩
      unfold sibling withFileName
      rw [hname]
      exact parts_join _ ((isPart_fileName? hname).append hsuffix)

/-- Siblings with different suffixes stand at different places. -/
theorem place_sibling_ne {other : String} (hsuffix : IsPart suffix) (hother : IsPart other)
    (hdots : ¬ IsDots suffix) (hdots' : ¬ IsDots other) (hne : suffix ≠ other) :
    place (sibling path suffix) ≠ place (sibling path other) := by
  obtain ⟨front, name, hparts⟩ := exists_parts_sibling path
  have hleft := place_of_parts (hparts suffix hsuffix) (not_isDots_append_right hdots)
  have hright := place_of_parts (hparts other hother) (not_isDots_append_right hdots')
  have hanchor : anchor (sibling path suffix) = anchor (sibling path other) := by
    cases front with
    | nil =>
        rw [anchor_of_parts (hparts suffix hsuffix), anchor_of_parts (hparts other hother)]
        simp
    | cons first rest =>
        rw [anchor_of_parts (hparts suffix hsuffix), anchor_of_parts (hparts other hother)]
        simp
  rw [hleft, hright, hanchor]
  intro heq
  exact hne ((String.append_right_inj name).mp (Place.child_inj heq).2)

/-- What is named otherwise in the folder of a file stands there under the other name. -/
theorem place_withFileName {other : String} (h : parts path = front ++ [name])
    (hname : ¬ IsDots name) (hother : IsPart other) (hdots : ¬ IsDots other) :
    place (withFileName path other)
      = ((⟨anchor path, []⟩ : Place).follow front).child other := by
  have hparts := parts_withFileName h hname hother
  have hanchor : anchor (withFileName path other) = anchor path := by
    cases front with
    | nil =>
        rw [anchor_of_parts h, anchor_of_parts hparts]
        simp
    | cons first rest =>
        rw [anchor_of_parts h, anchor_of_parts hparts]
        simp
  rw [place_of_parts hparts hdots, hanchor, Place.follow_dropTrailing]

/-- A sibling stands in the folder of the file, under the longer name. -/
theorem place_sibling (h : parts path = front ++ [name]) (hname : ¬ IsDots name)
    (hsuffix : IsPart suffix) : place (sibling path suffix) =
      ((⟨anchor path, []⟩ : Place).follow front).child (name ++ suffix) := by
  unfold sibling
  rw [fileName?_of_parts h hname]
  exact place_withFileName h hname ((isPart_of_parts_eq h).append hsuffix) (not_isDots_append hname)

/-- A path that can name a file stands at another place than its siblings. -/
theorem place_ne_sibling (hopen : endsOpen (parts path) = false) (hsuffix : IsPart suffix)
    (hne : suffix ≠ "") : place path ≠ place (sibling path suffix) := by
  obtain ⟨front, name, hparts, hname⟩ := exists_name_of_endsOpen_eq_false hopen
  rw [place_of_parts hparts hname, place_sibling hparts hname hsuffix]
  intro heq
  exact hne (String.append_eq_left_iff.mp (Place.child_inj heq).2.symm)

end Path

end Soundstage
