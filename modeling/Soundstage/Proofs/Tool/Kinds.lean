import Soundstage.Proofs.Tool.Rendering

/-!
# The kinds of failures in rendering

Rendering fails in the name of the renderer, or because giving up has been requested, with two
exceptions: what the system answers is handed on as it is where it refuses the folder for the
output, `Renderer.RefusesFolder`, and where it refuses to move the file into place that the program
claims to have written, `Renderer.RefusesMove`. Each stage of rendering has an equation for its
failures, and a failure of the whole is a failure of the first stage that fails.
-/

namespace Soundstage

variable {σ : Type}

namespace Disk

/-- A file that is not there cannot be moved. -/
theorem rename_of_missing {disk : Disk} {source goal : String} {start finish : Target}
    (hsource : disk.locate source = .ok start) (hnone : disk.get? start.place = none)
    (hgoal : disk.locate goal = .ok finish) (hname : Path.endsInName goal = true) :
    disk.rename source goal = .error .notFound := by
  have hread : disk.read source = .error .notFound := by
    simp [read, look, hsource, hnone, bind, Except.bind]
  simp [rename, hsource, hgoal, hname, hread, bind, Except.bind]

end Disk

namespace Invocation

variable {i : Invocation} {programs : Programs σ} {disk : Disk} {cancelled : Bool} {state : σ}

/-- Giving up has been requested before a program is started, or it is seen to be requested while
the program runs. -/
def IsAskedToStop (i : Invocation) (programs : Programs σ) (disk : Disk) (cancelled : Bool)
    (state : σ) : Prop :=
  cancelled = true ∨ ∃ child state',
    programs.start i.program i.arguments disk state = (.ok child, state') ∧
      ∃ look ∈ child.looks, look.ended = none ∧ look.cancelled = true

end Invocation

/-- A look that decides to give up has seen a program that runs and the request to stop it. -/
theorem Look.Leads.of_cancelled {limit : Option Nat} {look : Look}
    (h : look.Leads limit .cancelled) : look.ended = none ∧ look.cancelled = true := by
  cases h with
  | cancelled hended hasked => exact ⟨hended, hasked⟩

namespace Child

variable {p : Child} {limit : Option Nat}

/-- Waiting ends in giving up where the first look that decides anything decides so. -/
theorem exists_look_of_cancelled (h : p.ending limit = .cancelled) :
    ∃ look, p.looks.find? (fun look => (look.ending? limit).isSome) = some look ∧
      look.ending? limit = some .cancelled := by
  unfold ending at h
  cases hdecided : p.looks.findSome? (·.ending? limit) with
  | none =>
      rw [hdecided] at h
      cases hlast : p.last <;> simp [hlast, Ending.ofWait] at h
  | some ending =>
      rw [hdecided] at h
      obtain ⟨before, look, after, hlooks, hlook, hbefore⟩ :=
        List.findSome?_eq_some_iff.mp hdecided
      obtain rfl : ending = .cancelled := h
      refine ⟨look, ?_, hlook⟩
      rw [List.find?_eq_some_iff_append]
      exact ⟨by simp [hlook], before, after, hlooks, fun earlier hmem => by
        simp [hbefore earlier hmem]⟩

theorem cancelledAtEnd_of_cancelled (h : p.ending limit = .cancelled) :
    p.cancelledAtEnd limit = true := by
  obtain ⟨look, hfind, hlook⟩ := exists_look_of_cancelled h
  rw [cancelledAtEnd, hfind]
  exact (Look.leads_of_ending? hlook).of_cancelled.2

end Child

namespace Invocation

variable {i : Invocation} {programs : Programs σ} {disk : Disk} {cancelled : Bool} {state : σ}

theorem outcome_eq_cancelled_iff {p : Child} {name : String} :
    i.outcome p = .error (.cancelled name) ↔ p.ending i.limit = .cancelled ∧ name = i.program := by
  unfold outcome
  cases p.ending i.limit <;> simp [eq_comm]

/-- A run is given up only on request, and tells that it has been requested. -/
theorem isAskedToStop_of_run {name : String}
    (h : (i.run programs disk cancelled state).outcome = .error (.cancelled name)) :
    i.IsAskedToStop programs disk cancelled state ∧
      (i.run programs disk cancelled state).cancelled = true := by
  rcases run_cases i programs disk cancelled state with
    ⟨-, ⟨rfl, -⟩ | ⟨-, _, _, hfailed⟩⟩ | ⟨rfl, p, state', hstarts⟩
  · exact ⟨.inl rfl, rfl⟩
  · rw [hfailed] at h
    cases h
  · rw [run_of_starts hstarts] at h ⊢
    obtain ⟨hending, -⟩ := outcome_eq_cancelled_iff.mp h
    obtain ⟨look, hfind, hlook⟩ := Child.exists_look_of_cancelled hending
    exact ⟨.inr ⟨p, state', hstarts.start, look, List.mem_of_find?_eq_some hfind,
      (Look.leads_of_ending? hlook).of_cancelled⟩, Child.cancelledAtEnd_of_cancelled hending⟩

end Invocation

namespace Renderer

variable {r : Renderer} {programs : Programs σ} {plan : MixPlan} {out : String} {disk : Disk}
  {cancelled : Bool} {state : σ} {failure : Failure Float}

/-- The run of the program that writes the partial file, with the folder for the output at hand. -/
def toolRun (r : Renderer) (programs : Programs σ) (plan : MixPlan) (out : String) (disk : Disk)
    (cancelled : Bool) (state : σ) : Run σ :=
  (r.invocation plan (r.partialPath out)).run programs disk cancelled state

theorem check_eq_error (h : r.check plan disk = .error failure) :
    ∃ message, failure = .renderFailed message := by
  unfold check at h
  split at h
  · cases h
    exact ⟨_, rfl⟩
  · split at h
    · cases h
      exact ⟨_, rfl⟩
    · split at h
      · cases h
        exact ⟨_, rfl⟩
      · cases h

/-- The system refuses the folder for the output. -/
def RefusesFolder (out : String) (disk : Disk) (doing : String) (fault : Fault) : Prop :=
  ∃ folder, Path.parent? out = some folder ∧ folder ≠ "" ∧
    (disk.makeFolders folder).1 = .error fault ∧
    doing = "failed to create output directory '" ++ folder ++ "'"

theorem makeFolderFor_eq_error_iff :
    (makeFolderFor out disk).1 = .error failure ↔
      ∃ doing fault, RefusesFolder out disk doing fault ∧ failure = .refused doing fault := by
  unfold makeFolderFor RefusesFolder
  split
  · next hparent => simp [hparent]
  · next hparent => simp [hparent]
  · next folder hfolder hparent =>
      have hsome : folder ≠ "" := fun h => hfolder (by rw [h])
      split
      · next made hmade => simp [hparent, hmade]
      · next fault made hmade =>
          constructor
          · intro h
            exact ⟨_, fault, ⟨folder, hparent, hsome, by rw [hmade], rfl⟩,
              (Except.error.inj h).symm⟩
          · rintro ⟨_, fault', ⟨folder', hparent', -, hfault, rfl⟩, rfl⟩
            obtain rfl := Option.some.inj (hparent.symm.trans hparent')
            rw [hmade] at hfault
            rw [Except.error.inj hfault]

theorem moveIntoPlace_eq_error_iff {source goal : String} :
    moveIntoPlace source goal disk = .error failure ↔
      ∃ fault, disk.rename source goal = .error fault ∧
        failure
          = .refused ("failed to move rendered file into place at '" ++ goal ++ "'") fault := by
  unfold moveIntoPlace
  cases disk.rename source goal <;> simp [eq_comm]

/-- A run has succeeded if its program has ended and says so. -/
theorem conclude_eq_ok_iff {outcome : Except ToolFailure ToolOutput} :
    conclude outcome = .ok () ↔
      ∃ output, outcome = .ok output ∧ output.status.isSuccess = true := by
  unfold conclude
  split
  · simp
  · simp
  · next output =>
      cases hsuccess : output.status.isSuccess <;> simp [hsuccess]

/-- A run that has not succeeded has been given up, or it fails in the name of the renderer. -/
theorem kind_of_conclude {outcome : Except ToolFailure ToolOutput}
    (h : conclude outcome = .error failure) :
    (∃ message, failure = .renderFailed message) ∨
      failure = .cancelled "render" ∧ ∃ name, outcome = .error (.cancelled name) := by
  unfold conclude at h
  split at h
  · next name => exact .inr ⟨(Except.error.inj h).symm, name, rfl⟩
  · exact .inl ⟨_, (Except.error.inj h).symm⟩
  · split at h
    · cases h
    · exact .inl ⟨_, (Except.error.inj h).symm⟩

theorem cancels_produce : (r.produce programs plan out disk cancelled state).reply.cancels
    = (r.toolRun programs plan out disk cancelled state).cancelled := by
  unfold produce toolRun
  dsimp only
  split
  · rfl
  · split <;> rfl

/-- Producing a file fails because its run does, or because what the run has left cannot be
moved. -/
theorem produce_eq_error_iff :
    (r.produce programs plan out disk cancelled state).reply.outcome = .error failure ↔
      conclude (r.toolRun programs plan out disk cancelled state).outcome = .error failure ∨
        conclude (r.toolRun programs plan out disk cancelled state).outcome = .ok () ∧
          moveIntoPlace (r.partialPath out) out
            (r.toolRun programs plan out disk cancelled state).disk = .error failure := by
  unfold produce toolRun
  dsimp only
  split
  · next failure' hrun => simp [hrun]
  · next hrun =>
      split
      · next failure' hmove => simp [hrun, hmove]
      · next moved hmove => simp [hrun, hmove]

/-- Rendering fails at the first of its stages that does. -/
theorem render_eq_error_iff :
    (r.render programs plan out disk cancelled state).reply.outcome = .error failure ↔
      r.check plan disk = .error failure ∨
        r.check plan disk = .ok () ∧
          (programs.answers r.program state = false ∧ failure = .renderFailed
              "ffmpeg is required for rendering, but was not found on PATH" ∨
            programs.answers r.program state = true ∧
              ((makeFolderFor out disk).1 = .error failure ∨
                (makeFolderFor out disk).1 = .ok () ∧
                  (r.produce programs plan out (makeFolderFor out disk).2 cancelled
                    state).reply.outcome = .error failure)) := by
  unfold render
  dsimp only
  split
  · next failure' hcheck => simp [hcheck]
  · next hcheck =>
      cases hanswers : programs.answers r.program state with
      | false => simp [hcheck, eq_comm]
      | true =>
          simp only [hcheck, Bool.not_true, Bool.false_eq_true, ↓reduceIte]
          split
          · next failure' made hmade => simp [hmade]
          · next made hmade => simp [hmade]

/-- Once the folder for its file is there, rendering that gets as far as that is producing it. -/
theorem cancels_render_of_stages (hcheck : r.check plan disk = .ok ())
    (hanswers : programs.answers r.program state = true)
    (hmade : (makeFolderFor out disk).1 = .ok ()) :
    (r.render programs plan out disk cancelled state).reply.cancels
      = (r.produce programs plan out (makeFolderFor out disk).2 cancelled state).reply.cancels := by
  unfold render
  rw [hcheck]
  simp only [hanswers, Bool.not_true, Bool.false_eq_true, ↓reduceIte]
  split
  · next failure made hfolder => simp [hfolder] at hmade
  · next made hfolder => rw [hfolder]

/-- The system refuses to move the partial file into place, although the program has reported that
all went well. -/
def RefusesMove (r : Renderer) (programs : Programs σ) (plan : MixPlan) (out : String) (disk : Disk)
    (cancelled : Bool) (state : σ) (doing : String) (fault : Fault) : Prop :=
  ∃ output, (r.toolRun programs plan out disk cancelled state).outcome = .ok output ∧
    output.status.isSuccess = true ∧
    (r.toolRun programs plan out disk cancelled state).disk.rename (r.partialPath out) out
      = .error fault ∧
    doing = "failed to move rendered file into place at '" ++ out ++ "'"

theorem move_eq_refused_iff {doing : String} {fault : Fault} :
    conclude (r.toolRun programs plan out disk cancelled state).outcome = .ok () ∧
        moveIntoPlace (r.partialPath out) out
          (r.toolRun programs plan out disk cancelled state).disk = .error (.refused doing fault) ↔
      r.RefusesMove programs plan out disk cancelled state doing fault := by
  rw [conclude_eq_ok_iff, moveIntoPlace_eq_error_iff]
  constructor
  · rintro ⟨⟨output, hrun, hsuccess⟩, fault', hrename, hfailure⟩
    obtain ⟨rfl, rfl⟩ := Failure.refused.inj hfailure
    exact ⟨output, hrun, hsuccess, hrename, rfl⟩
  · rintro ⟨output, hrun, hsuccess, hrename, rfl⟩
    exact ⟨⟨output, hrun, hsuccess⟩, fault, hrename, rfl⟩

/-- A run that fails does not fail in the words of the system. -/
theorem conclude_ne_refused (outcome : Except ToolFailure ToolOutput) (doing : String)
    (fault : Fault) : conclude outcome ≠ .error (.refused doing fault) := by
  intro h
  obtain ⟨message, hnamed⟩ | ⟨hstopped, -⟩ := kind_of_conclude h
  · cases hnamed
  · cases hstopped

theorem check_ne_refused (r : Renderer) (plan : MixPlan) (disk : Disk) (doing : String)
    (fault : Fault) : r.check plan disk ≠ .error (.refused doing fault) := by
  intro h
  obtain ⟨message, hnamed⟩ := check_eq_error h
  cases hnamed

/-- The failures in rendering that are handed on from the system. -/
theorem render_eq_refused_iff {doing : String} {fault : Fault} :
    (r.render programs plan out disk cancelled state).reply.outcome
        = .error (.refused doing fault) ↔
      r.check plan disk = .ok () ∧ programs.answers r.program state = true ∧
        (RefusesFolder out disk doing fault ∨
          (makeFolderFor out disk).1 = .ok () ∧
            r.RefusesMove programs plan out (makeFolderFor out disk).2 cancelled state doing
              fault) := by
  have hfolder : (makeFolderFor out disk).1 = .error (.refused doing fault) ↔
      RefusesFolder out disk doing fault := by
    rw [makeFolderFor_eq_error_iff]
    constructor
    · rintro ⟨doing', fault', hrefuses, hsame⟩
      obtain ⟨rfl, rfl⟩ := Failure.refused.inj hsame
      exact hrefuses
    · exact fun hrefuses => ⟨doing, fault, hrefuses, rfl⟩
  simp only [render_eq_error_iff, produce_eq_error_iff, check_ne_refused, conclude_ne_refused,
    move_eq_refused_iff, hfolder, false_or, and_false, reduceCtorEq]

/-- What rendering can come to, as far as the kind of a failure goes. -/
theorem kind_of_render (r : Renderer) (programs : Programs σ) (plan : MixPlan) (out : String)
    (disk : Disk) (cancelled : Bool) (state : σ) :
    (r.render programs plan out disk cancelled state).reply.outcome = .ok () ∨
      (∃ message, (r.render programs plan out disk cancelled state).reply.outcome
        = .error (.renderFailed message)) ∨
      ((r.render programs plan out disk cancelled state).reply.outcome
          = .error (.cancelled "render") ∧
        (r.render programs plan out disk cancelled state).reply.cancels = true ∧
        (r.invocation plan (r.partialPath out)).IsAskedToStop programs (makeFolderFor out disk).2
          cancelled state) ∨
      ∃ doing fault, (r.render programs plan out disk cancelled state).reply.outcome
        = .error (.refused doing fault) := by
  cases houtcome : (r.render programs plan out disk cancelled state).reply.outcome with
  | ok u => exact .inl rfl
  | error failure =>
      refine .inr ?_
      rcases render_eq_error_iff.mp houtcome with hcheck | ⟨hcheck, ⟨-, rfl⟩ | ⟨hanswers,
        hfolder | ⟨hmade, hproduce⟩⟩⟩
      · obtain ⟨message, rfl⟩ := check_eq_error hcheck
        exact .inl ⟨message, rfl⟩
      · exact .inl ⟨_, rfl⟩
      · obtain ⟨doing, fault, -, rfl⟩ := makeFolderFor_eq_error_iff.mp hfolder
        exact .inr (.inr ⟨doing, fault, rfl⟩)
      · rcases produce_eq_error_iff.mp hproduce with hrun | ⟨-, hmove⟩
        · obtain ⟨message, rfl⟩ | ⟨rfl, name, hstopped⟩ := kind_of_conclude hrun
          · exact .inl ⟨message, rfl⟩
          · obtain ⟨hasked, hcancels⟩ := Invocation.isAskedToStop_of_run hstopped
            refine .inr (.inl ⟨rfl, ?_, hasked⟩)
            rw [cancels_render_of_stages hcheck hanswers hmade, cancels_produce]
            exact hcancels
        · obtain ⟨fault, -, rfl⟩ := moveIntoPlace_eq_error_iff.mp hmove
          exact .inr (.inr ⟨_, fault, rfl⟩)

end Renderer

open Renderer in
/-- **The kinds of failures in rendering.** Whatever the plan, the output and the program are,
rendering succeeds, fails in the name of the renderer, or is given up because that has been
requested before the start of the program or while it runs; or the answer of the system is handed
on, and that happens exactly where it refuses the folder for the output, or refuses to move the
partial file of a program that has reported success. -/
theorem Renderer.render_fails_in_kind (r : Renderer) (programs : Programs σ) (plan : MixPlan)
    (out : String) (disk : Disk) (cancelled : Bool) (state : σ) :
    ((r.render programs plan out disk cancelled state).reply.outcome = .ok () ∨
      (∃ message, (r.render programs plan out disk cancelled state).reply.outcome
        = .error (.renderFailed message)) ∨
      ((r.render programs plan out disk cancelled state).reply.outcome
          = .error (.cancelled "render") ∧
        (r.render programs plan out disk cancelled state).reply.cancels = true ∧
        (r.invocation plan (r.partialPath out)).IsAskedToStop programs (makeFolderFor out disk).2
          cancelled state) ∨
      ∃ doing fault, (r.render programs plan out disk cancelled state).reply.outcome
        = .error (.refused doing fault)) ∧
    ∀ doing fault,
      (r.render programs plan out disk cancelled state).reply.outcome
          = .error (.refused doing fault) ↔
        r.check plan disk = .ok () ∧ programs.answers r.program state = true ∧
          (RefusesFolder out disk doing fault ∨
            (makeFolderFor out disk).1 = .ok () ∧
              r.RefusesMove programs plan out (makeFolderFor out disk).2 cancelled state doing
                fault) :=
  ⟨kind_of_render r programs plan out disk cancelled state, fun _ _ => render_eq_refused_iff⟩

/-- A program that writes nothing and reports that all went well. -/
def idlePrograms : Programs Unit where
  answers _ _ := true
  start _ _ disk _ := (.ok ⟨[], .ok (.exited 0), .empty, .empty, disk⟩, ())

theorem start_idlePrograms (program : String) (arguments : List String) (disk : Disk) :
    idlePrograms.start program arguments disk ()
      = (.ok ⟨[], .ok (.exited 0), .empty, .empty, disk⟩, ()) := rfl

/-- A disk with one empty file in the working directory. -/
def diskWithFile (name : String) : Disk := Disk.put {} ⟨.above 0, [name]⟩ (.file .empty)

/-- A program that leaves no file behind although it reports success, and an output below a file:
both failures are those of the system, not the renderer's own. -/
theorem Renderer.render_may_be_refused :
    (plainRenderer.render idlePrograms ⟨1, []⟩ "out.opus" {} false ()).reply.outcome
        = .error (.refused "failed to move rendered file into place at 'out.opus'" .notFound) ∧
      (plainRenderer.render writingPrograms ⟨1, []⟩ "f/out.opus" (diskWithFile "f") false
          ()).reply.outcome
        = .error (.refused "failed to create output directory 'f'" .alreadyExists) := by
  have hcheck : ∀ disk, plainRenderer.check ⟨1, []⟩ disk = .ok () := by
    intro disk
    rfl
  -- The program is started, as its arguments can be passed on, and leaves the disk as it is.
  have hrun : plainRenderer.toolRun idlePrograms ⟨1, []⟩ "out.opus" {} false ()
      = ⟨.ok ⟨.exited 0, .empty, .empty⟩, [.start, .reap], {}, false, ()⟩ := by
    unfold Renderer.toolRun
    have hpassable :
        ((plainRenderer.invocation ⟨1, []⟩ (plainRenderer.partialPath "out.opus")).program
          :: (plainRenderer.invocation ⟨1, []⟩ (plainRenderer.partialPath "out.opus")).arguments).all
          Invocation.isPassable = true := by
      rw [Invocation.isPassable_eq]
      decide +kernel
    exact Invocation.run_of_starts ⟨hpassable, by decide +kernel, start_idlePrograms _ _ {}⟩
  have hplace : Path.parent? "out.opus" = some "" := by decide +kernel
  have hmade : Renderer.makeFolderFor "out.opus" {} = (.ok (), {}) := by
    simp [Renderer.makeFolderFor, hplace]
  refine ⟨Renderer.render_eq_refused_iff.mpr ⟨hcheck _, rfl, .inr ⟨by rw [hmade], ?_⟩⟩,
    Renderer.render_eq_refused_iff.mpr ⟨hcheck _, rfl, .inl ⟨"f", ?_, ?_, ?_, ?_⟩⟩⟩
  · refine ⟨⟨.exited 0, .empty, .empty⟩, ?_, rfl, ?_, rfl⟩
    · rw [hmade, hrun]
    · rw [hmade, hrun]
      have hsource : Disk.locate {} (plainRenderer.partialPath "out.opus")
          = .ok ⟨⟨.above 0, [".out.7.partial.opus"]⟩, false⟩ := by
        decide +kernel
      have hgoal : Disk.locate {} "out.opus" = .ok ⟨⟨.above 0, ["out.opus"]⟩, false⟩ := by
        decide +kernel
      exact Disk.rename_of_missing hsource (Disk.get?_empty (by decide)) hgoal (by decide +kernel)
  · decide +kernel
  · decide +kernel
  · decide +kernel
  · decide +kernel

end Soundstage
