import Soundstage.Timeline.Build

/-!
# Taking computations apart

A computation in a session either answers or fails, and leaves a session behind in both cases. The
lemmas here say for each way of putting computations together when the whole answers and when it
fails, so that proofs about builds go from one command to the next without opening the monad.
-/

namespace Soundstage

variable {R σ α β : Type}

namespace Work

@[simp] theorem get_apply (s : Session R σ) : (get : Work R σ (Session R σ)) s = .ok s s := rfl

/-- The second computation goes on where the first one has answered. -/
theorem bind_apply_of_ok {work : Work R σ α} {next : α → Work R σ β} {s t : Session R σ} {a : α}
    (h : work s = .ok a t) : (work >>= next) s = next a t := by
  change EStateM.bind work next s = next a t
  simp only [EStateM.bind, h]

/-- A failure of the first computation is one of the whole. -/
theorem bind_apply_of_error {work : Work R σ α} {next : α → Work R σ β} {s t : Session R σ}
    {failure : Failure R} (h : work s = .error failure t) :
    (work >>= next) s = .error failure t := by
  change EStateM.bind work next s = .error failure t
  simp only [EStateM.bind, h]

theorem bind_eq_ok {work : Work R σ α} {next : α → Work R σ β} {s t : Session R σ} {b : β} :
    (work >>= next) s = .ok b t ↔ ∃ a u, work s = .ok a u ∧ next a u = .ok b t := by
  cases h : work s with
  | ok a u =>
      rw [bind_apply_of_ok h]
      constructor
      · intro hb
        exact ⟨a, u, rfl, hb⟩
      · rintro ⟨a', u', ha, hb⟩
        cases ha
        exact hb
  | error failure u =>
      rw [bind_apply_of_error h]
      constructor
      · intro hb
        cases hb
      · rintro ⟨a', u', ha, -⟩
        cases ha

theorem bind_eq_error {work : Work R σ α} {next : α → Work R σ β} {s t : Session R σ}
    {failure : Failure R} :
    (work >>= next) s = .error failure t ↔
      work s = .error failure t ∨ ∃ a u, work s = .ok a u ∧ next a u = .error failure t := by
  cases h : work s with
  | ok a u =>
      rw [bind_apply_of_ok h]
      constructor
      · intro hb
        exact .inr ⟨a, u, rfl, hb⟩
      · rintro (he | ⟨a', u', ha, hb⟩)
        · cases he
        · cases ha
          exact hb
  | error cause u =>
      rw [bind_apply_of_error h]
      constructor
      · intro he
        cases he
        exact .inl rfl
      · rintro (he | ⟨a', u', ha, -⟩)
        · cases he
          rfl
        · cases ha

/-- A loop fails where one of its rounds does. -/
theorem foldlM_eq_error {f : β → α → Work R σ β} {list : List α} {b : β} {s t : Session R σ}
    {failure : Failure R} :
    list.foldlM f b s = .error failure t ↔
      ∃ before a after c u, list = before ++ a :: after ∧ before.foldlM f b s = .ok c u ∧
        f c a u = .error failure t := by
  induction list generalizing b s with
  | nil =>
      constructor
      · intro h
        cases h
      · rintro ⟨before, a, after, -, -, hsplit, -⟩
        simp at hsplit
  | cons first rest ih =>
      rw [List.foldlM_cons, bind_eq_error]
      constructor
      · rintro (h | ⟨c, u, hfirst, h⟩)
        · exact ⟨[], first, rest, b, s, rfl, rfl, h⟩
        · obtain ⟨before, a, after, d, v, rfl, hbefore, ha⟩ := ih.mp h
          have hwhole : (first :: before).foldlM f b s = .ok d v := by
            rw [List.foldlM_cons]
            exact bind_eq_ok.mpr ⟨c, u, hfirst, hbefore⟩
          exact ⟨first :: before, a, after, d, v, rfl, hwhole, ha⟩
      · rintro ⟨before, a, after, d, v, hsplit, hbefore, ha⟩
        cases before with
        | nil =>
            cases hsplit
            cases hbefore
            exact .inl ha
        | cons head before =>
            cases hsplit
            rw [List.foldlM_cons, bind_eq_ok] at hbefore
            obtain ⟨c, u, hfirst, hbefore⟩ := hbefore
            exact .inr ⟨c, u, hfirst, ih.mpr ⟨before, a, after, d, v, rfl, hbefore, ha⟩⟩

/-- What each round of a loop keeps, the loop keeps, by induction on its rounds. -/
theorem foldlM_keeps {I : β → Prop} {f : β → α → Work R σ β} {list : List α} {b c : β}
    {s t : Session R σ} (hf : ∀ a ∈ list, ∀ {b c s t}, I b → f b a s = .ok c t → I c) (hb : I b)
    (h : list.foldlM f b s = .ok c t) : I c := by
  induction list generalizing b s with
  | nil =>
      cases h
      exact hb
  | cons first rest ih =>
      rw [List.foldlM_cons] at h
      obtain ⟨d, u, hfirst, hrest⟩ := bind_eq_ok.mp h
      exact ih (fun a ha => hf a (List.mem_cons_of_mem _ ha))
        (hf first List.mem_cons_self hb hfirst) hrest

/-- The counts of the store behind a computation that answers. -/
def counts? (work : Work R σ α) (s : Session R σ) : Option Stats :=
  match work s with
  | .ok _ t => some t.shelf.stats
  | .error _ _ => none

theorem counts?_eq_some_iff {work : Work R σ α} {s : Session R σ} {stats : Stats} :
    work.counts? s = some stats ↔ ∃ a t, work s = .ok a t ∧ t.shelf.stats = stats := by
  unfold counts?
  cases work s with
  | error failure t => simp
  | ok a t =>
      constructor
      · intro h
        exact ⟨a, t, rfl, Option.some.inj h⟩
      · rintro ⟨a', t', h, rfl⟩
        cases h
        rfl

/-- What a computation answers. -/
def answer? (work : Work R σ α) (s : Session R σ) : Option α :=
  match work s with
  | .ok a _ => some a
  | .error _ _ => none

theorem answer?_eq_some_iff {work : Work R σ α} {s : Session R σ} {a : α} :
    work.answer? s = some a ↔ ∃ t, work s = .ok a t := by
  unfold answer?
  cases work s <;> simp

theorem isSome_answer?_iff {work : Work R σ α} {s : Session R σ} :
    (work.answer? s).isSome = true ↔ ∃ a t, work s = .ok a t := by
  simp only [Option.isSome_iff_exists, answer?_eq_some_iff]

/-- The failure that a computation ends with. -/
def failure? (work : Work R σ α) (s : Session R σ) : Option (Failure R) :=
  match work s with
  | .ok _ _ => none
  | .error failure _ => some failure

theorem failure?_eq_some_iff {work : Work R σ α} {s : Session R σ} {failure : Failure R} :
    work.failure? s = some failure ↔ ∃ t, work s = .error failure t := by
  unfold failure?
  cases work s <;> simp

theorem isSome_failure?_iff {work : Work R σ α} {s : Session R σ} :
    (work.failure? s).isSome = true ↔ ∃ failure t, work s = .error failure t := by
  simp only [Option.isSome_iff_exists, failure?_eq_some_iff]

/-- Naming the responsible line does not change answers. -/
theorem atLine_eq_ok {line : Nat} {work : Work R σ α} {s t : Session R σ} {a : α} :
    atLine line work s = .ok a t ↔ work s = .ok a t := by
  unfold atLine
  cases h : work s <;> simp

theorem atLine_eq_error {line : Nat} {work : Work R σ α} {s t : Session R σ}
    {failure : Failure R} :
    atLine line work s = .error failure t ↔
      ∃ cause, work s = .error cause t ∧ failure = cause.locate line := by
  unfold atLine
  cases h : work s with
  | ok a u => simp
  | error cause u =>
      constructor
      · intro he
        cases he
        exact ⟨cause, rfl, rfl⟩
      · rintro ⟨cause', hcause, rfl⟩
        cases hcause
        rfl

end Work

/-- Collaborators that answer everything alike. -/
def constantCollaborators (speech sound : Except (Failure Float) ByteArray)
    (length : Except (Failure Float) Float) : Collaborators Float Unit where
  speech _ _ _ := ⟨speech, false, ()⟩
  sound _ _ _ _ := ⟨sound, false, ()⟩
  probe _ _ _ _ := ⟨length, false, ()⟩
  meanwhile _ := (false, ())

/-- Collaborators that give one byte for everything. Every file plays for two seconds. -/
def steadyCollaborators : Collaborators Float Unit :=
  constantCollaborators (.ok ⟨#[1]⟩) (.ok ⟨#[1]⟩) (.ok 2)

/-- One worker that is given everything by such collaborators. -/
def steadySetup : Setup Float Unit where
  store := ⟨"cache", "opus", 7⟩
  collaborators := steadyCollaborators

/-- Nothing is on the disk and nobody has asked for anything. -/
def freshSession : Session Float Unit := ⟨{}, ⟨false, [], ()⟩⟩

/-- Collaborators that can speak, while the generator of sounds is busy. -/
def busyCollaborators : Collaborators Float Unit :=
  constantCollaborators (.ok ⟨#[1]⟩) (.error (.other "busy" [])) (.ok 2)

/-- It rains, somebody speaks, and three seconds later the rain stops. -/
def rainScript : List (ScriptLine Float) :=
  [⟨1, .backgroundStart 0 "rain"⟩, ⟨2, .voice 0 "Hello"⟩, ⟨3, .wait 3⟩, ⟨4, .backgroundStop "rain"⟩]

end Soundstage
