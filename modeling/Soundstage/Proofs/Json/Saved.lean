import Mathlib
import Soundstage.Proofs.Json.Record
import Soundstage.Proofs.Script.Grammar

/-!
# Scripts, timelines and plans are kept

Each kind of record is kept because its members are. A command is read in a second way as well,
which asks of all of its parts that they can be read.
-/

namespace Soundstage

open Json Json.Tree

theorem isFinite_of_required {member : Option Tree} {x : Float}
    (h : Member.required float? member = some x) : x.isFinite = true :=
  (keeps_float.required.accepted h).2 x (List.mem_singleton.mpr rfl)

/-! ## Clips, timelines and plans -/

/-- The doubles of a clip. -/
def Segment.numbers (s : Segment Float) : List Float := [s.start, s.duration, s.pan]

theorem Segment.ofTree?_tree (s : Segment Float) : Saved.ofTree? (Saved.tree s) = (do
    return ⟨s.path, ← float? (ofFloat s.start), ← float? (ofFloat s.duration),
      ← float? (ofFloat s.pan)⟩ : Option (Segment Float)) := by
  simp only [Saved.tree, Saved.ofTree?]
  rw [members?_ofMembers]
  case hnames => rfl
  case hnodup => decide
  simp

theorem keeps_segment :
    Keeps (Saved.tree (α := Segment Float)) Saved.ofTree? Segment.numbers fun _ => True where
  isWritten s := isWritten_ofMembers (by simp [isWritten_ofString, isWritten_ofFloat])
  back {s} _ hfinite hback := by
    simp only [Segment.numbers, List.forall_mem_cons] at hfinite hback
    obtain ⟨hstart, hduration, hpan, -⟩ := hfinite
    obtain ⟨hstart', hduration', hpan', -⟩ := hback
    rw [Segment.ofTree?_tree, float?_ofFloat hstart hstart', float?_ofFloat hduration hduration',
      float?_ofFloat hpan hpan']
    rfl
  isFinite_of_back {s t} h := by
    simp only [Segment.ofTree?_tree, Option.bind_eq_bind, Option.bind_eq_some_iff] at h
    obtain ⟨_, hstart, _, hduration, _, hpan, -⟩ := h
    simp [Segment.numbers, isFinite_of_ofFloat hstart, isFinite_of_ofFloat hduration,
      isFinite_of_ofFloat hpan]
  accepted {saved s} h := by
    simp only [Saved.ofTree?, Option.bind_eq_bind, Option.bind_eq_some_iff] at h
    obtain ⟨members, -, h⟩ := h
    split at h
    · simp only [Option.bind_eq_some_iff, Option.pure_def, Option.some.injEq] at h
      obtain ⟨_, -, _, hstart, _, hduration, _, hpan, rfl⟩ := h
      simp [Segment.numbers, isFinite_of_required hstart, isFinite_of_required hduration,
        isFinite_of_required hpan]
    · exact absurd h (by simp)

/-- A record of a length and clips. -/
theorem keeps_total_and_clips {α : Type} {total : α → Float} {clips : α → List (Segment Float)}
    {make : Float → List (Segment Float) → α} (hmake : ∀ a, make (total a) (clips a) = a)
    (hparts : ∀ x l, total (make x l) = x ∧ clips (make x l) = l) {name name' : String}
    (hne : name ≠ name') :
    Keeps
      (fun a => ofMembers [(name, ofFloat (total a)), (name', .list ((clips a).map Saved.tree))])
      (fun saved => do
        let [total, clips] ← saved.members? [name, name'] false | none
        return make (← Member.required float? total) (← Member.required Saved.list? clips))
      (fun a => total a :: (clips a).flatMap Segment.numbers) fun _ => True :=
  (keeps_float.required.pair keeps_segment.list.required hmake hparts hne false).congr (by simp)

/-- The doubles of a timeline. -/
def Timeline.numbers (t : Timeline Float) : List Float :=
  t.total :: t.segments.flatMap Segment.numbers

theorem keeps_timeline :
    Keeps (Saved.tree (α := Timeline Float)) Saved.ofTree? Timeline.numbers fun _ => True :=
  keeps_total_and_clips (fun _ => rfl) (fun _ _ => ⟨rfl, rfl⟩) (by decide)

/-- The doubles of a plan. -/
def MixPlan.numbers (plan : MixPlan) : List Float :=
  plan.total :: plan.inputs.flatMap Segment.numbers

theorem keeps_plan :
    Keeps (Saved.tree (α := MixPlan)) Saved.ofTree? MixPlan.numbers fun _ => True :=
  keeps_total_and_clips (fun _ => rfl) (fun _ _ => ⟨rfl, rfl⟩) (by decide)

/-! ## Commands and script lines -/

namespace Json

theorem all_isSome_ofString (s : String) : (Gapped.ofString s).all Option.isSome = true := by
  simp [Gapped.ofString]

theorem isReadable_ofString (depth : ℕ) (s : String) : (ofString s).isReadable depth = true :=
  all_isSome_ofString s

theorem isReadable_ofFloat {x : Float} (hx : x.isFinite = true) (h : ReadsBack x) (depth : ℕ) :
    (ofFloat x).isReadable depth = true := by
  have hread := h hx
  rw [ofFloat, if_pos hx, Tree.isReadable, hread]
  rfl

theorem isReadable_ofMembers {depth : ℕ} {members : List (String × Tree)}
    (h : ∀ member ∈ members, member.2.isReadable depth = true) :
    (ofMembers members).isReadable (depth + 1) = true := by
  have hmembers :
      membersAreReadable depth (members.map fun m => (.ofString m.1, m.2)) = true := by
    induction members with
    | nil => rfl
    | cons member members ih =>
      rw [List.forall_mem_cons] at h
      rw [List.map_cons, membersAreReadable, all_isSome_ofString, h.1, ih h.2]
      rfl
  simp [ofMembers_eq, Tree.isReadable, hmembers]

end Json

namespace Command

/-- The kind of a command as it is saved. -/
def kind : Command Float → String
  | voice .. => "voice"
  | sound .. => "sound"
  | backgroundStart .. => "background_start"
  | backgroundStop .. => "background_stop"
  | wait .. => "wait"

/-- The members of a saved command without its kind. -/
def parts : Command Float → List (String × Tree)
  | voice pan phrase => [("pan", .ofFloat pan), ("phrase", .ofString phrase)]
  | sound pan duration description =>
    [("pan", .ofFloat pan), ("duration_secs", .ofFloat duration),
      ("description", .ofString description)]
  | backgroundStart pan description =>
    [("pan", .ofFloat pan), ("description", .ofString description)]
  | backgroundStop description => [("description", .ofString description)]
  | wait duration => [("secs", .ofFloat duration)]

theorem tree_eq (c : Command Float) :
    c.tree = .ofMembers ((kindMember, .ofString c.kind) :: c.parts) := by
  cases c <;> rfl

theorem kindMember_notMem_parts (c : Command Float) : ∀ part ∈ c.parts, part.1 ≠ kindMember := by
  cases c <;> simp [parts, kindMember]

/-- The kind of a record is taken out of it wherever it stands; in saved commands it is the first
member. -/
theorem kindAndBody?_tree (c : Command Float) :
    kindAndBody? c.tree = some (.ofString c.kind, .ofMembers c.parts) := by
  have hparts := c.kindMember_notMem_parts
  have honly : only? kindMember ((kindMember, .ofString c.kind) :: c.parts) =
      some (some (.ofString c.kind)) := by
    have hfilter : c.parts.filter (·.1 = kindMember) = [] := by
      simpa [List.filter_eq_nil_iff] using fun name value h => hparts (name, value) h
    rw [only?, List.filter_cons_of_pos (by simp), hfilter]
  have hrest : (c.parts.map fun m => (Gapped.ofString m.1, m.2)).filter
      (fun m => m.1 ≠ .ofString kindMember) =
        c.parts.map fun m => (Gapped.ofString m.1, m.2) := by
    rw [List.filter_eq_self]
    rintro member hmember
    obtain ⟨part, hpart, rfl⟩ := List.mem_map.mp hmember
    simpa [Gapped.ofString_inj] using hparts part hpart
  rw [tree_eq, ofMembers_eq, kindAndBody?, named?_ofMembers]
  simp only [Option.bind_eq_bind, Option.bind_some, honly, Option.pure_def, List.map_cons]
  rw [List.filter_cons_of_neg (by simp), hrest]
  rfl

/-- The parts of a command give the command back as far as its doubles are read. -/
theorem ofBody?_parts (c : Command Float) : ofBody? c.kind (.ofMembers c.parts) =
    match c with
    | voice pan phrase => (float? (.ofFloat pan)).map (voice · phrase)
    | sound pan duration description => do
      return sound (← float? (.ofFloat pan)) (← float? (.ofFloat duration)) description
    | backgroundStart pan description =>
      (float? (.ofFloat pan)).map (backgroundStart · description)
    | backgroundStop description => some (backgroundStop description)
    | wait duration => (float? (.ofFloat duration)).map wait := by
  cases c
  all_goals
    simp only [kind, parts, ofBody?]
    rw [members?_ofMembers]
    case hnames => rfl
    case hnodup => decide
    simp [Option.map_eq_bind]

theorem isFinite_of_parts {c d : Command Float} (h : ofBody? c.kind (.ofMembers c.parts) = some d) :
    ∀ x ∈ c.numbers, x.isFinite = true := by
  rw [ofBody?_parts] at h
  cases c with
  | voice pan phrase =>
    obtain ⟨_, hpan, -⟩ := Option.map_eq_some_iff.mp h
    simp [numbers, isFinite_of_ofFloat hpan]
  | sound pan duration description =>
    simp only [Option.bind_eq_bind, Option.bind_eq_some_iff] at h
    obtain ⟨_, hpan, _, hduration, -⟩ := h
    simp [numbers, isFinite_of_ofFloat hpan, isFinite_of_ofFloat hduration]
  | backgroundStart pan description =>
    obtain ⟨_, hpan, -⟩ := Option.map_eq_some_iff.mp h
    simp [numbers, isFinite_of_ofFloat hpan]
  | backgroundStop description => simp [numbers]
  | wait duration =>
    obtain ⟨_, hduration, -⟩ := Option.map_eq_some_iff.mp h
    simp [numbers, isFinite_of_ofFloat hduration]

theorem isFinite_of_ofBody? {kind : String} {body : Tree} {c : Command Float}
    (h : ofBody? kind body = some c) : ∀ x ∈ c.numbers, x.isFinite = true := by
  unfold ofBody? at h
  split at h
  case h_6 => exact absurd h (by simp)
  -- Each kind with members of its own reads them one after the other.
  all_goals
    simp only [Option.bind_eq_bind, Option.bind_eq_some_iff] at h
    obtain ⟨members, -, h⟩ := h
    split at h
    case h_2 => exact absurd h (by simp)
    simp only [Option.bind_eq_some_iff, Option.pure_def, Option.some.injEq] at h
  · obtain ⟨_, hpan, _, -, rfl⟩ := h
    simp [numbers, isFinite_of_required hpan]
  · obtain ⟨_, hpan, _, hduration, _, -, rfl⟩ := h
    simp [numbers, isFinite_of_required hpan, isFinite_of_required hduration]
  · obtain ⟨_, hpan, _, -, rfl⟩ := h
    simp [numbers, isFinite_of_required hpan]
  · obtain ⟨_, -, rfl⟩ := h
    simp [numbers]
  · obtain ⟨_, hduration, rfl⟩ := h
    simp [numbers, isFinite_of_required hduration]

section Back

variable {c : Command Float} (hfinite : ∀ x ∈ c.numbers, x.isFinite = true)
  (hback : ∀ x ∈ c.numbers, ReadsBack x)

include hfinite hback

theorem isReadable_parts (depth : ℕ) : ∀ part ∈ c.parts, part.2.isReadable depth = true := by
  have hnumbers : ∀ x ∈ c.numbers, (ofFloat x).isReadable depth = true :=
    fun x hx => isReadable_ofFloat (hfinite x hx) (hback x hx) depth
  cases c <;> simp_all [parts, numbers, isReadable_ofString]

theorem ofBody?_parts_back : ofBody? c.kind (.ofMembers c.parts) = some c := by
  have hnumbers : ∀ x ∈ c.numbers, float? (ofFloat x) = some x :=
    fun x hx => float?_ofFloat (hfinite x hx) (hback x hx)
  rw [ofBody?_parts]
  cases c <;> simp_all [numbers]

end Back

/-- Within as many lists and records as may lie around it, a command is kept. -/
theorem keeps_command {around : ℕ} (haround : around < greatestDepth) :
    Keeps tree (ofTree? around) numbers fun _ => True where
  isWritten c := by
    rw [tree_eq]
    refine isWritten_ofMembers ?_
    cases c <;> simp [parts, isWritten_ofString, isWritten_ofFloat]
  back {c} _ hfinite hback := by
    have hreadable : c.tree.isReadable (greatestDepth - around) = true := by
      obtain ⟨depth, hdepth⟩ : ∃ depth, greatestDepth - around = depth + 1 :=
        ⟨greatestDepth - around - 1, by omega⟩
      rw [tree_eq, hdepth]
      refine isReadable_ofMembers ?_
      rw [List.forall_mem_cons]
      exact ⟨isReadable_ofString depth c.kind, isReadable_parts hfinite hback depth⟩
    simp [ofTree?, hreadable, kindAndBody?_tree, ofBody?_parts_back hfinite hback]
  isFinite_of_back {c d} h := by
    unfold ofTree? at h
    split at h
    · exact absurd h (by simp)
    · simp only [kindAndBody?_tree, Option.bind_eq_bind, Option.bind_some, string?_ofString] at h
      exact isFinite_of_parts h
  accepted {saved c} h := by
    unfold ofTree? at h
    split at h
    · exact absurd h (by simp)
    · simp only [Option.bind_eq_bind, Option.bind_eq_some_iff] at h
      obtain ⟨_, -, _, -, h⟩ := h
      exact ⟨trivial, isFinite_of_ofBody? h⟩

end Command

/-- The doubles of a line. -/
def ScriptLine.numbers (l : ScriptLine Float) : List Float := l.command.numbers

theorem keeps_line : Keeps (Saved.tree (α := ScriptLine Float)) Saved.ofTree? ScriptLine.numbers
    fun l => l.line < countBound :=
  ((keeps_count countBound).required.pair (Command.keeps_command (by decide)).required
    (fun _ => rfl) (fun _ _ => ⟨rfl, rfl⟩) (by decide) false).congr (by simp)

end Soundstage
