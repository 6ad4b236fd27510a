import Soundstage.Proofs.Json.Record

/-!
# Records with one name

A record that is read by a single name holds at most one member with that name, and names its other
members otherwise; a list of one item is read in its place. `Tree.Holds` says so without a reader,
and `members?_eq_some_iff` that the reader finds exactly what is held.
-/

namespace Soundstage

open Json

/-- A text whose characters are all there is made of these characters. -/
theorem Gapped.eq_map_some {t : Gapped} {chars : List Char} (h : t.mapM id = some chars) :
    t = chars.map some := by
  induction t generalizing chars with
  | nil =>
      cases h
      rfl
  | cons c rest ih =>
      simp only [List.mapM_cons, id, Option.bind_eq_bind, Option.bind_eq_some_iff,
        Option.pure_def, Option.some.injEq] at h
      obtain ⟨c, rfl, others, hrest, rfl⟩ := h
      rw [ih hrest, List.map_cons]

theorem Gapped.text?_eq_some_iff {t : Gapped} {s : String} :
    t.text? = some s ↔ t = .ofString s := by
  constructor
  · intro h
    obtain ⟨chars, hchars, rfl⟩ := Option.map_eq_some_iff.mp h
    rw [eq_map_some hchars, ofString, String.toList_ofList]
  · rintro rfl
    exact text?_ofString s

namespace Json

/-- Members that have strings other than the given one for names. -/
def OtherNames (name : String) (members : List (Gapped × Tree)) : Prop :=
  ∀ member ∈ members, ∃ other : String, member.1 = .ofString other ∧ other ≠ name

/-- What a value holds under a name, if it can be read by this name. -/
inductive Tree.Holds (name : String) : Tree → Option Tree → Prop
  /-- One member has the name, wherever it stands. -/
  | member {before after : List (Gapped × Tree)} {value : Tree} (hbefore : OtherNames name before)
      (hafter : OtherNames name after) :
      Holds name (.record (before ++ (.ofString name, value) :: after)) (some value)
  /-- No member has the name. -/
  | absent {members : List (Gapped × Tree)} (h : OtherNames name members) :
      Holds name (.record members) none
  /-- A list of one item stands for a record. -/
  | item {value : Tree} : Holds name (.list [value]) (some value)

variable {name : String} {members : List (Gapped × Tree)} {named : List (String × Tree)}
  {tree : Tree} {value? : Option Tree}

/-- Members with strings for names. -/
theorem Tree.named?_eq_some_iff : named? members = some named ↔
    members = named.map fun m => (.ofString m.1, m.2) := by
  constructor
  · intro h
    induction members generalizing named with
    | nil =>
        cases h
        rfl
    | cons member rest ih =>
        unfold named? at h ih
        simp only [List.mapM_cons, Option.bind_eq_bind, Option.bind_eq_some_iff, Option.pure_def,
          Option.some.injEq, Option.map_eq_some_iff] at h
        obtain ⟨first, ⟨s, hs, rfl⟩, others, hothers, rfl⟩ := h
        rw [List.map_cons, ← ih hothers, ← Gapped.text?_eq_some_iff.mp hs]
  · rintro rfl
    exact named?_ofMembers named

theorem otherNames_map_iff : OtherNames name (named.map fun m => (.ofString m.1, m.2)) ↔
    ∀ m ∈ named, ¬ m.1 = name := by
  constructor
  · intro h m hm heq
    obtain ⟨other, hother, hne⟩ := h _ (List.mem_map_of_mem hm)
    exact hne (Gapped.ofString_inj.mp hother ▸ heq)
  · intro h member hmember
    obtain ⟨m, hm, rfl⟩ := List.mem_map.mp hmember
    exact ⟨m.1, rfl, h m hm⟩

/-- Members with other names have strings for names. -/
theorem OtherNames.exists_named (h : OtherNames name members) :
    ∃ named : List (String × Tree), members = named.map fun m => (.ofString m.1, m.2) := by
  induction members with
  | nil => exact ⟨[], rfl⟩
  | cons member rest ih =>
      obtain ⟨named, hnamed⟩ := ih fun m hm => h m (List.mem_cons_of_mem _ hm)
      obtain ⟨other, hother, -⟩ := h member List.mem_cons_self
      exact ⟨(other, member.2) :: named, by rw [List.map_cons, ← hnamed, ← hother]⟩

/-- The members of which at most one has the name. -/
theorem Tree.only?_eq_some_iff : only? name named = some value? ↔
    Holds name (.record (named.map fun m => (.ofString m.1, m.2))) value? := by
  constructor
  · intro h
    unfold only? at h
    split at h
    · next hnone =>
      cases h
      refine .absent (otherNames_map_iff.mpr fun m hm heq => ?_)
      exact List.filter_eq_nil_iff.mp hnone m hm (by simpa using heq)
    · next found value hone =>
      cases h
      obtain ⟨before, after, rfl, hbefore, hname, hafter⟩ := List.filter_eq_cons_iff.mp hone
      obtain rfl : found = name := by simpa using hname
      rw [List.map_append, List.map_cons]
      refine .member (otherNames_map_iff.mpr fun m hm heq => ?_)
        (otherNames_map_iff.mpr fun m hm heq => ?_)
      · exact hbefore m hm (by simpa using heq)
      · exact List.filter_eq_nil_iff.mp hafter m hm (by simpa using heq)
    · cases h
  · intro h
    have hnone : ∀ {ms : List (String × Tree)}, (∀ m ∈ ms, ¬ m.1 = name) →
        ms.filter (·.1 = name) = [] :=
      fun hne => List.filter_eq_nil_iff.mpr fun m hm heq => hne m hm (by simpa using heq)
    generalize hrecord : named.map (fun m => (Gapped.ofString m.1, m.2)) = members at h
    cases h with
    | @member before after value hbefore hafter =>
      obtain ⟨front, rest, rfl, rfl, hrest⟩ := List.map_eq_append_iff.mp hrecord
      obtain ⟨⟨found, value'⟩, back, rfl, heq, rfl⟩ := List.map_eq_cons_iff.mp hrest
      obtain ⟨hfound, rfl⟩ := Prod.mk.inj heq
      obtain rfl := Gapped.ofString_inj.mp hfound
      unfold only?
      rw [List.filter_append, hnone (otherNames_map_iff.mp hbefore),
        List.filter_cons_of_pos (by simp), hnone (otherNames_map_iff.mp hafter)]
      rfl
    | absent h =>
      rw [← hrecord, otherNames_map_iff] at h
      unfold only?
      rw [hnone h]

theorem OtherNames.exists_map_append {before after : List (Gapped × Tree)} {value : Tree}
    (hbefore : OtherNames name before) (hafter : OtherNames name after) :
    ∃ named : List (String × Tree), before ++ (.ofString name, value) :: after
      = named.map fun m => (.ofString m.1, m.2) := by
  obtain ⟨front, rfl⟩ := hbefore.exists_named
  obtain ⟨back, rfl⟩ := hafter.exists_named
  exact ⟨front ++ (name, value) :: back, by rw [List.map_append, List.map_cons]⟩

theorem Tree.members?_record_eq_some_iff :
    members? [name] false (.record (named.map fun m => (.ofString m.1, m.2))) = some [value?] ↔
      Holds name (.record (named.map fun m => (.ofString m.1, m.2))) value? := by
  rw [← only?_eq_some_iff, members?, named?_eq_some_iff.mpr rfl, Option.bind_eq_bind,
    Option.bind_some, List.mapM_cons]
  cases only? name named <;> simp

/-- A value is read by one name exactly as it holds something under this name. -/
theorem Tree.members?_eq_some_iff :
    tree.members? [name] false = some [value?] ↔ tree.Holds name value? := by
  constructor
  · intro h
    cases tree with
    | record members =>
      obtain ⟨named, hnamed, -⟩ := Option.bind_eq_some_iff.mp h
      obtain rfl := named?_eq_some_iff.mp hnamed
      exact members?_record_eq_some_iff.mp h
    | list items =>
      simp only [members?, List.length_singleton, Bool.false_eq_true, false_and, or_false] at h
      split at h
      · next hlength =>
        obtain ⟨item, rfl⟩ := List.length_eq_one_iff.mp hlength
        cases h
        exact .item
      · cases h
    | _ => cases h
  · intro h
    cases h with
    | member hbefore hafter =>
      obtain ⟨named, hnamed⟩ := hbefore.exists_map_append hafter
      rw [hnamed]
      exact members?_record_eq_some_iff.mpr (hnamed ▸ .member hbefore hafter)
    | absent h =>
      obtain ⟨named, rfl⟩ := h.exists_named
      exact members?_record_eq_some_iff.mpr (.absent h)
    | item => rfl

end Json

end Soundstage
