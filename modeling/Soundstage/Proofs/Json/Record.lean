import Mathlib
import Soundstage.Json.Saved
import Soundstage.Proofs.Json.Double

/-!
# Kept values

`Keeps` says what it means for values to be saved as trees and taken back: nothing is lost but what
no number can write, and nothing is taken that would be lost. It is proved here for the parts of
records, and the members of a record are found again by their names.
-/

namespace Soundstage

open Json Json.Tree

theorem Gapped.text?_ofString (s : String) : Gapped.text? (.ofString s) = some s := by
  have hchars : (s.toList.map some).mapM id = some s.toList := by
    induction s.toList with
    | nil => rfl
    | cons c chars ih => simp [List.mapM_cons, ih]
  rw [Gapped.text?, Gapped.ofString, hchars, Option.map_some, String.ofList_toList]

theorem Gapped.ofString_inj {s t : String} : Gapped.ofString s = Gapped.ofString t ↔ s = t := by
  refine ⟨fun h => ?_, fun h => h ▸ rfl⟩
  have htext := Gapped.text?_ofString s
  rw [h, Gapped.text?_ofString] at htext
  exact (Option.some.inj htext).symm

namespace Json

theorem isWhole_ofString (s : String) : IsWhole (.ofString s) := ⟨s.toList, rfl⟩

namespace Tree

theorem isWritten_ofString (s : String) : (ofString s).IsWritten := .text (isWhole_ofString s)

theorem isWritten_ofOption (s : Option String) : (ofOption s).IsWritten := by
  cases s with
  | none => exact .null
  | some s => exact isWritten_ofString s

theorem ofMembers_eq (members : List (String × Tree)) :
    ofMembers members = .record (members.map fun m => (.ofString m.1, m.2)) := rfl

theorem isWritten_ofMembers {members : List (String × Tree)}
    (h : ∀ member ∈ members, member.2.IsWritten) : (ofMembers members).IsWritten := by
  refine .record (fun member hmember => ?_) fun member hmember => ?_
  · obtain ⟨source, -, rfl⟩ := List.mem_map.mp hmember
    exact isWhole_ofString source.1
  · obtain ⟨source, hsource, rfl⟩ := List.mem_map.mp hmember
    exact h source hsource

@[simp]
theorem string?_ofString (s : String) : string? (ofString s) = some s := Gapped.text?_ofString s

theorem named?_ofMembers (members : List (String × Tree)) :
    named? (members.map fun m => (.ofString m.1, m.2)) = some members := by
  induction members with
  | nil => rfl
  | cons member members ih =>
    unfold named? at ih ⊢
    rw [List.map_cons, List.mapM_cons, ih]
    simp [Gapped.text?_ofString]

theorem only?_of_mem {members : List (String × Tree)} (hnodup : (members.map Prod.fst).Nodup)
    {name : String} {value : Tree} (h : (name, value) ∈ members) :
    only? name members = some (some value) := by
  have hfilter : members.filter (·.1 = name) = [(name, value)] := by
    induction members with
    | nil => exact absurd h List.not_mem_nil
    | cons member members ih =>
      obtain ⟨hnotin, hnodup⟩ := List.nodup_cons.mp hnodup
      rcases List.mem_cons.mp h with rfl | h
      · have hrest : members.filter (·.1 = name) = [] := by
          rw [List.filter_eq_nil_iff]
          rintro other hother heq
          exact hnotin (List.mem_map.mpr ⟨other, hother, by simpa using heq⟩)
        rw [List.filter_cons_of_pos (by simp), hrest]
      · have hne : member.1 ≠ name := by
          rintro rfl
          exact hnotin (List.mem_map.mpr ⟨_, h, rfl⟩)
        rw [List.filter_cons_of_neg (by simpa using hne), ih hnodup h]
  rw [only?, hfilter]

/-- The members of a record with names of their own are found by these. -/
theorem members?_ofMembers {members : List (String × Tree)} {names : List String}
    (hnames : members.map Prod.fst = names) (hnodup : names.Nodup) (mayStop : Bool) :
    (ofMembers members).members? names mayStop = some (members.map (some ·.2)) := by
  subst hnames
  have hmapM : ∀ part ⊆ members, (part.map Prod.fst).mapM (only? · members) =
      some (part.map (some ·.2)) := by
    intro part hpart
    induction part with
    | nil => rfl
    | cons member part ih =>
      have hmem : (member.1, member.2) ∈ members := hpart List.mem_cons_self
      have hmember := only?_of_mem hnodup hmem
      rw [List.map_cons, List.mapM_cons, hmember, ih (List.subset_of_cons_subset hpart)]
      rfl
  rw [ofMembers_eq, members?, named?_ofMembers, Option.bind_eq_bind, Option.bind_some,
    hmapM members (List.Subset.refl _)]

end Tree

namespace Member

variable {α : Type} {read? : Tree → Option α} {a : α} {member : Option Tree}

@[simp]
theorem required_some (read? : Tree → Option α) (tree : Tree) :
    required read? (some tree) = read? tree := rfl

@[simp]
theorem orElse_some (read? : Tree → Option α) (absent : α) (tree : Tree) :
    orElse read? absent (some tree) = read? tree := rfl

@[simp]
theorem optional_ofOption (s : Option String) :
    optional string? (some (Tree.ofOption s)) = some s := by
  cases s with
  | none => rfl
  | some s =>
    change (string? (ofString s)).map some = some (some s)
    rw [string?_ofString, Option.map_some]

end Member

end Json

/-! ## Values that are kept -/

/-- Values of a type are kept by the trees they are saved as. `numbers` are the doubles in a value,
and `inRange` holds of the values whose counts are below their bounds. -/
structure Keeps {α : Type} (tree : α → Tree) (ofTree? : Tree → Option α)
    (numbers : α → List Float) (inRange : α → Prop) : Prop where
  isWritten : ∀ a, (tree a).IsWritten
  back : ∀ {a}, inRange a → (∀ x ∈ numbers a, x.isFinite = true) →
    (∀ x ∈ numbers a, ReadsBack x) → ofTree? (tree a) = some a
  isFinite_of_back : ∀ {a b}, ofTree? (tree a) = some b → ∀ x ∈ numbers a, x.isFinite = true
  accepted : ∀ {saved a}, ofTree? saved = some a →
    inRange a ∧ ∀ x ∈ numbers a, x.isFinite = true

/-- The same of a reader of members, which may also be absent. -/
structure KeepsMember {α : Type} (tree : α → Tree) (read? : Option Tree → Option α)
    (numbers : α → List Float) (inRange : α → Prop) : Prop where
  isWritten : ∀ a, (tree a).IsWritten
  back : ∀ {a}, inRange a → (∀ x ∈ numbers a, x.isFinite = true) →
    (∀ x ∈ numbers a, ReadsBack x) → read? (some (tree a)) = some a
  isFinite_of_back : ∀ {a b}, read? (some (tree a)) = some b → ∀ x ∈ numbers a, x.isFinite = true
  accepted : ∀ {member a}, read? member = some a →
    inRange a ∧ ∀ x ∈ numbers a, x.isFinite = true

theorem keeps_float : Keeps ofFloat float? (fun x => [x]) fun _ => True where
  isWritten := isWritten_ofFloat
  back _ hfinite hback :=
    float?_ofFloat (hfinite _ (List.mem_singleton.mpr rfl)) (hback _ (List.mem_singleton.mpr rfl))
  isFinite_of_back h := by simpa using isFinite_of_ofFloat h
  accepted h := ⟨trivial, by simpa using isFinite_of_float? h⟩

theorem keeps_count (bound : ℕ) : Keeps ofNat (count? bound) (fun _ => []) (· < bound) where
  isWritten := isWritten_ofNat
  back h _ _ := count?_ofNat h
  isFinite_of_back _ _ hx := absurd hx List.not_mem_nil
  accepted h := ⟨lt_of_count? h, fun _ hx => absurd hx List.not_mem_nil⟩

theorem keeps_string : Keeps ofString string? (fun _ => []) fun _ => True where
  isWritten := isWritten_ofString
  back _ _ _ := string?_ofString _
  isFinite_of_back _ _ hx := absurd hx List.not_mem_nil
  accepted _ := ⟨trivial, fun _ hx => absurd hx List.not_mem_nil⟩

namespace Keeps

variable {α : Type} {tree : α → Tree} {ofTree? : Tree → Option α} {numbers : α → List Float}
  {inRange inRange' : α → Prop}

theorem congr (h : Keeps tree ofTree? numbers inRange) (hrange : ∀ a, inRange a ↔ inRange' a) :
    Keeps tree ofTree? numbers inRange' where
  isWritten := h.isWritten
  back ha := h.back ((hrange _).mpr ha)
  isFinite_of_back := h.isFinite_of_back
  accepted ha := (h.accepted ha).imp_left (hrange _).mp

theorem required (h : Keeps tree ofTree? numbers inRange) :
    KeepsMember tree (Member.required ofTree?) numbers inRange where
  isWritten := h.isWritten
  back := h.back
  isFinite_of_back := h.isFinite_of_back
  accepted ha := by
    obtain ⟨saved, -, hsaved⟩ := Option.bind_eq_some_iff.mp ha
    exact h.accepted hsaved

/-- A value that stands for an absent member has to be one that can be saved. -/
theorem orElse (h : Keeps tree ofTree? numbers inRange) {absent : α}
    (habsent : inRange absent ∧ ∀ x ∈ numbers absent, x.isFinite = true) :
    KeepsMember tree (Member.orElse ofTree? absent) numbers inRange where
  isWritten := h.isWritten
  back := h.back
  isFinite_of_back := h.isFinite_of_back
  accepted {member a} ha := by
    cases member with
    | none => exact Option.some.inj ha ▸ habsent
    | some saved => exact h.accepted ha

theorem mapM_back (h : Keeps tree ofTree? numbers inRange) {l : List α}
    (hrange : ∀ a ∈ l, inRange a) (hfinite : ∀ x ∈ l.flatMap numbers, x.isFinite = true)
    (hback : ∀ x ∈ l.flatMap numbers, ReadsBack x) : (l.map tree).mapM ofTree? = some l := by
  induction l with
  | nil => rfl
  | cons a l ih =>
    rw [List.forall_mem_cons] at hrange
    rw [List.flatMap_cons, List.forall_mem_append] at hfinite hback
    rw [List.map_cons, List.mapM_cons, h.back hrange.1 hfinite.1 hback.1,
      ih hrange.2 hfinite.2 hback.2]
    rfl

theorem isFinite_of_mapM_back (h : Keeps tree ofTree? numbers inRange) {l m : List α}
    (hm : (l.map tree).mapM ofTree? = some m) : ∀ x ∈ l.flatMap numbers, x.isFinite = true := by
  induction l generalizing m with
  | nil => exact fun _ hx => absurd hx List.not_mem_nil
  | cons a l ih =>
    rw [List.map_cons, List.mapM_cons] at hm
    obtain ⟨b, hb, hm⟩ := Option.bind_eq_some_iff.mp hm
    obtain ⟨bs, hbs, -⟩ := Option.bind_eq_some_iff.mp hm
    rw [List.flatMap_cons, List.forall_mem_append]
    exact ⟨h.isFinite_of_back hb, ih hbs⟩

theorem accepted_of_mapM (h : Keeps tree ofTree? numbers inRange) {items : List Tree} {l : List α}
    (hl : items.mapM ofTree? = some l) :
    (∀ a ∈ l, inRange a) ∧ ∀ x ∈ l.flatMap numbers, x.isFinite = true := by
  induction items generalizing l with
  | nil =>
    obtain rfl : [] = l := Option.some.inj hl
    exact ⟨fun _ ha => absurd ha List.not_mem_nil, fun _ hx => absurd hx List.not_mem_nil⟩
  | cons item items ih =>
    rw [List.mapM_cons] at hl
    obtain ⟨a, ha, hl⟩ := Option.bind_eq_some_iff.mp hl
    obtain ⟨as, has, hl⟩ := Option.bind_eq_some_iff.mp hl
    obtain rfl : a :: as = l := Option.some.inj hl
    rw [List.flatMap_cons, List.forall_mem_append, List.forall_mem_cons]
    have hitem := h.accepted ha
    have hrest := ih has
    exact ⟨⟨hitem.1, hrest.1⟩, hitem.2, hrest.2⟩

/-- Lists of kept values are kept. -/
theorem list (h : Keeps tree ofTree? numbers inRange) :
    Keeps (fun l => .list (l.map tree)) (items? ofTree?) (·.flatMap numbers)
      fun l => ∀ a ∈ l, inRange a where
  isWritten l := by
    refine .list fun item hitem => ?_
    obtain ⟨a, -, rfl⟩ := List.mem_map.mp hitem
    exact h.isWritten a
  back hrange hfinite hback := h.mapM_back hrange hfinite hback
  isFinite_of_back hm := h.isFinite_of_mapM_back hm
  accepted {saved l} hl := by
    unfold items? at hl
    split at hl
    · exact h.accepted_of_mapM hl
    · exact absurd hl (by simp)

end Keeps

theorem members?_pair {name name' : String} (hne : name ≠ name') (mayStop : Bool)
    (value value' : Tree) : (ofMembers [(name, value), (name', value')]).members? [name, name']
      mayStop = some [some value, some value'] :=
  members?_ofMembers rfl (by simpa using hne) mayStop

/-- Records of two members are kept if their members are. -/
theorem KeepsMember.pair {α β γ : Type} {tree : β → Tree} {read? : Option Tree → Option β}
    {numbers : β → List Float} {inRange : β → Prop} {tree' : γ → Tree}
    {read?' : Option Tree → Option γ} {numbers' : γ → List Float} {inRange' : γ → Prop}
    (h : KeepsMember tree read? numbers inRange) (h' : KeepsMember tree' read?' numbers' inRange')
    {first : α → β} {second : α → γ} {make : β → γ → α}
    (hmake : ∀ a, make (first a) (second a) = a)
    (hparts : ∀ b c, first (make b c) = b ∧ second (make b c) = c) {name name' : String}
    (hne : name ≠ name') (mayStop : Bool) :
    Keeps (fun a => ofMembers [(name, tree (first a)), (name', tree' (second a))])
      (fun saved => do
        let [member, member'] ← saved.members? [name, name'] mayStop | none
        return make (← read? member) (← read?' member'))
      (fun a => numbers (first a) ++ numbers' (second a))
      fun a => inRange (first a) ∧ inRange' (second a) where
  isWritten a := isWritten_ofMembers (by simp [h.isWritten, h'.isWritten])
  back {a} hrange hfinite hback := by
    have hmembers := members?_pair hne mayStop (tree (first a)) (tree' (second a))
    rw [List.forall_mem_append] at hfinite hback
    simp [hmembers, h.back hrange.1 hfinite.1 hback.1, h'.back hrange.2 hfinite.2 hback.2, hmake]
  isFinite_of_back {a b} hb := by
    rw [members?_pair hne] at hb
    simp only [Option.bind_eq_bind, Option.bind_some, Option.bind_eq_some_iff] at hb
    obtain ⟨_, hfirst, _, hsecond, -⟩ := hb
    rw [List.forall_mem_append]
    exact ⟨h.isFinite_of_back hfirst, h'.isFinite_of_back hsecond⟩
  accepted {saved a} ha := by
    simp only [Option.bind_eq_bind, Option.bind_eq_some_iff] at ha
    obtain ⟨members, -, ha⟩ := ha
    split at ha
    · simp only [Option.bind_eq_some_iff, Option.pure_def, Option.some.injEq] at ha
      obtain ⟨b, hb, c, hc, rfl⟩ := ha
      rw [(hparts b c).1, (hparts b c).2, List.forall_mem_append]
      have hfirst := h.accepted hb
      have hsecond := h'.accepted hc
      exact ⟨⟨hfirst.1, hsecond.1⟩, hfirst.2, hsecond.2⟩
    · exact absurd ha (by simp)

/-- Values of a type are kept by the texts they are saved as: they are taken back unless they hold a
number that no digits can write, then no value is taken in their place, and what is taken from any
text is taken again from the text it is saved as. That finite numbers read back is assumed of the
numbers in the value. -/
structure IsKept {α : Type} (text : α → String) (read? : String → Option α)
    (numbers : α → List Float) (inRange : α → Prop) : Prop where
  read_text : ∀ a, inRange a → (∀ x ∈ numbers a, x.isFinite = true) →
    (∀ x ∈ numbers a, ReadsBack x) → read? (text a) = some a
  refused : ∀ a, (∃ x ∈ numbers a, x.isFinite = false) → read? (text a) = none
  again : ∀ saved a, read? saved = some a → (∀ x ∈ numbers a, ReadsBack x) →
    read? (text a) = some a

theorem Keeps.isKept {α : Type} {tree : α → Tree} {ofTree? : Tree → Option α}
    {numbers : α → List Float} {inRange : α → Prop} (h : Keeps tree ofTree? numbers inRange) :
    IsKept (fun a => String.ofList (tree a).compact)
      (fun text => (Tree.read? (.ofString text)).bind ofTree?) numbers inRange := by
  have hread : ∀ a, (Tree.read? (.ofString (String.ofList (tree a).compact))).bind ofTree? =
      ofTree? (tree a) := by
    intro a
    rw [Gapped.ofString, String.toList_ofList, (h.isWritten a).read?_compact, Option.bind_some]
  refine ⟨fun a hrange hfinite hback => ?_, fun a hbroken => ?_, fun saved a hsaved hback => ?_⟩
  · rw [hread, h.back hrange hfinite hback]
  · obtain ⟨x, hx, hxf⟩ := hbroken
    rw [hread, Option.eq_none_iff_forall_ne_some]
    intro b hb
    exact absurd (h.isFinite_of_back hb x hx) (by simp [hxf])
  · obtain ⟨parsed, -, hparsed⟩ := Option.bind_eq_some_iff.mp hsaved
    obtain ⟨hrange, hfinite⟩ := h.accepted hparsed
    rw [hread, h.back hrange hfinite hback]

end Soundstage
