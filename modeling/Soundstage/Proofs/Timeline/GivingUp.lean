import Soundstage.Proofs.Timeline.Belated
import Soundstage.Proofs.Timeline.Hindrance
import Soundstage.Proofs.Timeline.Overflow
import Soundstage.Proofs.Timeline.Rerun

/-!
# Giving up on a script

A studio that works alone looks for a request to give up before each command and once more before it
calls its renderer. `Studio.prepare` is all that it does up to that call. If giving up has been
requested by then, the renderer is not called and the studio fails; behind the request it has only
measured the voice that was being spoken and the loops that the end of the script stops.
-/

namespace Soundstage

variable {σ : Type}

/-- A script that has been read, by the lines that this gave. -/
theorem Script.parse_eq_ok {text : String} {lines : List (ScriptLine Float)}
    (h : (parse text).toOption = some lines) : parse text = .ok lines := by
  cases hparse : parse text with
  | error refusal =>
      rw [hparse] at h
      cases h
  | ok found =>
      rw [hparse] at h
      rw [Option.some.inj h]

namespace Build

variable {R : Type} [Scalar R] {setup : Setup R σ} {lines : List (ScriptLine R)}
  {s u : Session R σ}

/-- Late calls at the end of a script are none, or measurements of the loops of tracks that no
command has stopped, made when all commands have been run. -/
def AtMostLoops (setup : Setup R σ) (lines : List (ScriptLine R)) (s u : Session R σ)
    (late : List (CallRecord R)) : Prop :=
  late = [] ∨ ∃ p v, commands setup lines s = .ok p v ∧ late <+: u.callsSince v ∧
    AreLoopProbes p.live late

theorem AtMostLoops.congr {late : List (CallRecord R)} {t : Session R σ}
    (h : AtMostLoops setup lines s t late) (hcalls : u.surroundings.calls = t.surroundings.calls) :
    AtMostLoops setup lines s u late := by
  have hsince : ∀ v : Session R σ, u.callsSince v = t.callsSince v := by
    intro v
    unfold Session.callsSince
    rw [hcalls]
  refine h.imp_right ?_
  rintro ⟨p, v, hcommands, hlate, hprobes⟩
  exact ⟨p, v, hcommands, hsince v ▸ hlate, hprobes⟩

theorem AtMostLoops.not_generating {late : List (CallRecord R)}
    (h : AtMostLoops setup lines s u late) :
    ∀ record ∈ late, record.call.isGeneration = false := by
  intro record hrecord
  rcases h with rfl | ⟨p, v, -, -, hprobes⟩
  · cases hrecord
  · obtain ⟨track, -, hcall⟩ := hprobes record hrecord
    rw [hcall]
    rfl

/-- The calls of a build, latest first: its late calls are those of the end of the script, and
before them at most the measurement of one voice. -/
theorem splits_conclude (setup : Setup R σ) (lines : List (ScriptLine R)) (s : Session R σ) :
    ∃ loops voice early,
      s.Splits ((conclude setup lines).behind s) (loops ++ voice) early ∧
        AtMostVoice setup voice early ∧
        AtMostLoops setup lines s ((conclude setup lines).behind s) loops := by
  have hbehind : (conclude setup lines).behind s = (run setup lines).behind s :=
    Work.behind_bind_of_still fun p t => by split <;> rfl
  rw [hbehind]
  obtain ⟨voice, early, hsplits, hvoice⟩ := splits_commands setup lines s
  cases hcommands : commands setup lines s with
  | error failure v =>
      have hrun : (run setup lines).behind s = v := Work.behind_bind_of_error hcommands
      rw [hrun]
      rw [Work.behind_of_error hcommands] at hsplits
      exact ⟨[], voice, early, hsplits, hvoice, .inl rfl⟩
  | ok p v =>
      have hrun : (run setup lines).behind s = (flushAll setup p).behind v :=
        Work.behind_bind_of_ok hcommands
      rw [hrun]
      rw [Work.behind_of_ok hcommands] at hsplits
      obtain ⟨loops, before, hend, hloops⟩ := splits_flushAll setup p v
      refine ⟨loops, voice, before ++ early, hsplits.trans hend, ?_, .inr ⟨p, v, hcommands, ?_,
        hloops⟩⟩
      · cases hv : v.surroundings.cancelled with
        | true =>
            rw [(hend.requested hv).1]
            exact hvoice
        | false => exact .inl (hsplits.quiet hv)
      · rw [hend.callsSince]
        exact List.prefix_append _ _

end Build

namespace Studio

variable {studio : Studio σ} {text out : String} {s t u : Session Float σ}
  {failure : Failure Float} {plan : MixPlan} {lines : List (ScriptLine Float)}

/-- All that a studio does before it calls its renderer. -/
def prepare (studio : Studio σ) (text : String) : Work Float σ MixPlan := do
  let plan ← studio.compile text
  Work.checkpoint studio.setup.collaborators "render"
  return plan

/-- Where the preparation fails, the renderer is not called. -/
theorem renderScript_of_unprepared (h : studio.prepare text s = .error failure u) :
    studio.renderScript text out s = .error failure u := by
  rcases Work.bind_eq_error.mp h with hcompile | ⟨plan, t, hcompile, hrest⟩
  · exact Work.bind_apply_of_error hcompile
  · rcases Work.bind_eq_error.mp hrest with hcheck | ⟨⟨⟩, v, -, hrest⟩
    · exact (Work.bind_apply_of_ok hcompile).trans (Work.bind_apply_of_error hcheck)
    · cases hrest

/-- Where it succeeds, giving up has not been requested. -/
theorem not_cancelled_of_prepare (h : studio.prepare text s = .ok plan u) :
    u.surroundings.cancelled = false := by
  obtain ⟨plan', t, -, hrest⟩ := Work.bind_eq_ok.mp h
  obtain ⟨⟨⟩, v, hcheck, hrest⟩ := Work.bind_eq_ok.mp hrest
  cases hrest
  exact Build.not_cancelled_of_checkpoint hcheck

theorem compile_eq (hparse : Script.parse text = .ok lines) :
    studio.compile text = build studio.setup lines >>= fun result =>
      return .ofTimeline result.1 := by
  unfold compile
  rw [timeline_of_parse (by rw [hparse]; rfl)]

/-- The script can be read, and nothing but a request to give up hinders its build. -/
def Smooth (studio : Studio σ) (text : String) (s : Session Float σ) : Prop :=
  ∃ lines, Script.parse text = .ok lines ∧ Build.Smooth studio.setup lines s

/-- A preparation that nothing hinders only fails because it is given up. -/
theorem Smooth.isCancelled (hsmooth : studio.Smooth text s)
    (h : studio.prepare text s = .error failure u) : failure.isCancelled = true := by
  obtain ⟨lines, hparse, hbuild⟩ := hsmooth
  rcases Work.bind_eq_error.mp h with hcompile | ⟨plan, t, -, hrest⟩
  · rw [compile_eq hparse] at hcompile
    rcases Work.bind_eq_error.mp hcompile with hfailed | ⟨result, t, -, hrest⟩
    · exact (hbuild.isCancelled hfailed).1
    · cases hrest
  · rcases Work.bind_eq_error.mp hrest with hcheck | ⟨⟨⟩, v, -, hrest⟩
    · obtain ⟨rfl, -⟩ := Build.isCancelled_of_checkpoint hcheck
      rfl
    · cases hrest

/-- The calls of a studio up to the moment in which it would call its renderer, latest first: early
ones, before giving up was requested, and behind them at most the measurement of the voice that was
being spoken and those of the loops that the end of the script stops. -/
structure Belated (studio : Studio σ) (text : String) (s u : Session Float σ)
    (loops voice early : List (CallRecord Float)) : Prop extends
    Session.Splits s u (loops ++ voice) early where
  atMostVoice : Build.AtMostVoice studio.setup voice early
  atMostLoops : loops = [] ∨ ∃ lines, Script.parse text = .ok lines ∧
    Build.AtMostLoops studio.setup lines s u loops
  /-- No late call is one to a generator. -/
  not_generating : ∀ record ∈ loops ++ voice, record.call.isGeneration = false

theorem splits_compile (hw : ¬ 1 < studio.setup.workers) (text : String) (s : Session Float σ) :
    ∃ loops voice early, s.Splits ((studio.compile text).behind s) (loops ++ voice) early ∧
      Build.AtMostVoice studio.setup voice early ∧
      (loops = [] ∨ ∃ lines, Script.parse text = .ok lines ∧
        Build.AtMostLoops studio.setup lines s ((studio.compile text).behind s) loops) := by
  cases hparse : Script.parse text with
  | error refusal =>
      have hbehind : (studio.compile text).behind s = s := by
        unfold compile timeline
        rw [hparse]
        rfl
      rw [hbehind]
      exact ⟨[], [], [], .refl s, .inl rfl, .inl rfl⟩
  | ok lines =>
      rw [compile_eq hparse, Work.behind_bind_of_still fun _ _ => rfl]
      cases hc : checkStructure lines with
      | error refusal =>
          rw [Work.behind_of_error (build_of_refused hc)]
          exact ⟨[], [], [], .refl s, .inl rfl, .inl rfl⟩
      | ok _ =>
          rw [Build.behind_build_of_opens hc (.alone hw)]
          obtain ⟨loops, voice, early, hsplits, hvoice, hloops⟩ :=
            Build.splits_conclude studio.setup lines s
          exact ⟨loops, voice, early, hsplits, hvoice, .inr ⟨lines, rfl, hloops⟩⟩

/-- Looking once more before rendering is no call. -/
theorem splits_prepare (studio : Studio σ) (text : String) (s : Session Float σ) :
    Session.Splits ((studio.compile text).behind s) ((studio.prepare text).behind s) [] [] := by
  unfold prepare
  cases hcompile : studio.compile text s with
  | error failure t =>
      rw [Work.behind_of_error hcompile, Work.behind_bind_of_error hcompile]
      exact .refl t
  | ok plan t =>
      rw [Work.behind_of_ok hcompile, Work.behind_bind_of_ok hcompile,
        Work.behind_bind_of_still fun _ _ => rfl]
      exact Build.splits_checkpoint studio.setup "render" t

theorem exists_belated (hw : ¬ 1 < studio.setup.workers) (text : String) (s : Session Float σ) :
    ∃ loops voice early,
      studio.Belated text s ((studio.prepare text).behind s) loops voice early := by
  obtain ⟨loops, voice, early, hcompile, hvoice, hloops⟩ := splits_compile hw text s
  have hlast := splits_prepare studio text s
  refine ⟨loops, voice, early, {
    toSplits := hcompile.trans hlast
    atMostVoice := hvoice
    atMostLoops := hloops.imp_right fun ⟨lines, hparse, h⟩ => ⟨lines, hparse, h.congr hlast.calls⟩
    not_generating := by
      intro record hrecord
      rcases List.mem_append.mp hrecord with hloop | hmeasured
      · rcases hloops with rfl | ⟨lines, -, h⟩
        · cases hloop
        · exact h.not_generating record hloop
      · exact hvoice.not_generating record hmeasured }⟩

/-- **Giving up is honoured.** A studio that works alone has been asked to give up, at the
beginning, between two commands or during a call, by the moment in which it would call its renderer.
Then it fails without calling it, and behind the request it has only measured the voice that was
being spoken and the loops that the end of the script stops. The failure is a request to give up if
nothing else has hindered the build: the script is well structured, each loop covers its span, the
timeline passes its check, each generator has given at least one byte, each measured length can be
played, and the disk has taken the assets. Nor is the renderer called if the script is not
compiled. -/
theorem giving_up_is_honoured (studio : Studio σ) (hw : ¬ 1 < studio.setup.workers)
    (text out : String) (s u : Session Float σ) (hu : (studio.prepare text).behind s = u) :
    (∃ loops voice early, studio.Belated text s u loops voice early) ∧
    (u.surroundings.cancelled = true → ∃ failure,
      studio.renderScript text out s = .error failure u ∧
        (studio.Smooth text s → failure.isCancelled = true)) ∧
    ∀ failure t, studio.compile text s = .error failure t →
      t = u ∧ studio.renderScript text out s = .error failure u := by
  subst hu
  refine ⟨exists_belated hw text s, fun hcancelled => ?_, fun failure t hcompile => ?_⟩
  · cases hprepare : studio.prepare text s with
    | ok plan u =>
        rw [Work.behind_of_ok hprepare, not_cancelled_of_prepare hprepare] at hcancelled
        cases hcancelled
    | error failure u =>
        rw [Work.behind_of_error hprepare]
        exact ⟨failure, renderScript_of_unprepared hprepare, fun h => h.isCancelled hprepare⟩
  · have hprepare : studio.prepare text s = .error failure t := Work.bind_apply_of_error hcompile
    rw [Work.behind_of_error hprepare]
    exact ⟨rfl, renderScript_of_unprepared hprepare⟩

end Studio

/-- A studio with other collaborators. -/
def steadyStudioOf (collaborators : Collaborators Float Unit) : Studio Unit :=
  { steadyStudio with setup := { steadySetup with collaborators := collaborators } }

/-- Collaborators among whom giving up is requested while one of them speaks. -/
def interruptedCollaborators (phrase : ByteArray) : Collaborators Float Unit :=
  { steadyCollaborators with speech := fun _ _ _ => ⟨.ok phrase, true, ()⟩ }

/-- A studio of such collaborators. -/
def driveStudio : Studio Unit := steadyStudioOf (interruptedCollaborators ⟨#[1]⟩)

/-- It rains up to the end of a greeting. -/
def driveText : String := "bgstart 0 rain\nvoice 0 Hello"

/-- The commands of this text. -/
def driveScript : List (ScriptLine Float) :=
  [⟨1, .backgroundStart 0 "rain"⟩, ⟨2, .voice 0 "Hello"⟩]

/-- Giving up is requested during the last call to a generator. The greeting and the rain are still
measured, and nothing is rendered. -/
theorem Studio.giving_up_is_honoured_drive :
    ¬ 1 < driveStudio.setup.workers ∧
    ∃ u, (driveStudio.prepare driveText).behind freshSession = u ∧
      u.callsSince freshSession
        = [⟨.probe (steadySetup.store.pathFor ⟨.sound, "rain"⟩), true⟩,
          ⟨.probe (steadySetup.store.pathFor ⟨.voice, "Hello"⟩), true⟩,
          ⟨.speech "Hello", false⟩, ⟨.sound "rain" none, false⟩] ∧
      ∃ failure, driveStudio.renderScript driveText "out.opus" freshSession = .error failure u ∧
        failure.isCancelled = true := by
  have hw : ¬ 1 < driveStudio.setup.workers := by decide
  have hparse : Script.parse driveText = .ok driveScript :=
    Script.parse_eq_ok (by decide +kernel)
  have hanswer : ((build driveStudio.setup driveScript).answer? freshSession).isSome = true := by
    decide +kernel
  have hrun :
      ((driveStudio.prepare driveText).behind freshSession).surroundings.cancelled = true ∧
      ((driveStudio.prepare driveText).behind freshSession).callsSince freshSession
        = [⟨.probe (steadySetup.store.pathFor ⟨.sound, "rain"⟩), true⟩,
          ⟨.probe (steadySetup.store.pathFor ⟨.voice, "Hello"⟩), true⟩,
          ⟨.speech "Hello", false⟩, ⟨.sound "rain" none, false⟩] := by
    decide +kernel
  obtain ⟨result, t, hbuild⟩ := Work.isSome_answer?_iff.mp hanswer
  have hsmooth : driveStudio.Smooth driveText freshSession :=
    ⟨driveScript, hparse, Build.smooth_of_build hw hbuild⟩
  obtain ⟨-, hfails, -⟩ :=
    Studio.giving_up_is_honoured driveStudio hw driveText "out.opus" freshSession _ rfl
  obtain ⟨failure, hfailed, hcancelled⟩ := hfails hrun.1
  exact ⟨hw, _, rfl, hrun.2, failure, hfailed, hcancelled hsmooth⟩

/-- A greeting that is stopped meets no tracks and no check of its timeline. -/
theorem Build.answered_of_greeting {setup : Setup Float Unit} {s t : Session Float Unit}
    {failure : Failure Float} (hw : ¬ 1 < setup.workers)
    (hgenerated : ∀ r u, ∃ content, generated setup r u = .ok content)
    (hmeasured : ∀ path u, ∃ secs v, Work.probe setup.collaborators path u = .ok secs v)
    (hstops : commands setup helloScript s = .error failure t) : Answered setup helloScript s := by
  have hcommands : ∀ {u p v}, Opens setup helloScript s u →
      commands setup helloScript u ≠ .ok p v := by
    intro u p v hopens h
    obtain rfl := hopens.unique (.alone hw)
    rw [hstops] at h
    cases h
  have hnone : ∀ line ∈ helloScript, ∀ description, Clips.isStop description line = false := by
    intro line hline description
    rw [List.mem_singleton.mp hline]
    rfl
  exact {
    structured := rfl
    generated := fun r u _ _ _ => hgenerated r u
    measured := fun path u _ => hmeasured path u
    tiled := fun p track u h => absurd h (not_places hw hnone hstops)
    validated := by
      intro u p v hopens hrun
      obtain ⟨q, w, hall, -⟩ := Work.bind_eq_ok.mp hrun
      exact absurd hall (hcommands hopens) }

/-- Giving up has been requested before a studio would call its renderer, and nothing is wrong with
its script or with any answer of its collaborators, yet it fails otherwise. -/
def Studio.FailsOtherwise (studio : Studio Unit) (text out : String) (s : Session Float Unit) :
    Prop :=
  ¬ 1 < studio.setup.workers ∧
  (∃ lines, Script.parse text = .ok lines ∧ Build.Answered studio.setup lines s) ∧
  ((studio.prepare text).behind s).surroundings.cancelled = true ∧
  ∃ failure u, studio.renderScript text out s = .error failure u ∧ failure.isCancelled = false

theorem Studio.failsOtherwise_of_greeting {studio : Studio Unit} {s : Session Float Unit}
    (hw : ¬ 1 < studio.setup.workers)
    (hgenerated : ∀ r u, ∃ content, Build.generated studio.setup r u = .ok content)
    (hmeasured : ∀ path u, ∃ secs v, Work.probe studio.setup.collaborators path u = .ok secs v)
    (hstops : ((Build.commands studio.setup helloScript).failure? s).map Failure.isCancelled
        = some false ∧
      ((Build.commands studio.setup helloScript).behind s).surroundings.cancelled = true)
    (out : String) : studio.FailsOtherwise "voice 0 Hello" out s := by
  have hparse : Script.parse "voice 0 Hello" = .ok helloScript :=
    Script.parse_eq_ok (by decide)
  obtain ⟨failure, hfailure, hother⟩ := Option.map_eq_some_iff.mp hstops.1
  obtain ⟨u, hcommands⟩ := Work.failure?_eq_some_iff.mp hfailure
  have hrun : Build.run studio.setup helloScript s = .error failure u :=
    Work.bind_apply_of_error hcommands
  have hbuild : build studio.setup helloScript s = .error failure u :=
    (build_of_one_worker rfl hw).trans (Work.bind_apply_of_error hrun)
  have hprepare : studio.prepare "voice 0 Hello" s = .error failure u := by
    refine Work.bind_apply_of_error ?_
    rw [compile_eq hparse]
    exact Work.bind_apply_of_error hbuild
  refine ⟨hw, ⟨_, hparse, Build.answered_of_greeting hw hgenerated hmeasured hcommands⟩, ?_,
    failure, u, renderScript_of_unprepared hprepare, hother⟩
  rw [Work.behind_of_error hprepare, ← Work.behind_of_error hcommands]
  exact hstops.2

/-- Collaborators among whom giving up is requested while one of them measures, with a length that
is none. -/
def instantCollaborators : Collaborators Float Unit :=
  { steadyCollaborators with probe := fun _ _ _ _ => ⟨.ok 0, true, ()⟩ }

/-- It is not enough that all collaborators answer. A generator may give no bytes, a file may have
no length, and a folder may stand where an asset belongs: this comes before the next look at the
request to give up. -/
theorem Studio.not_cancelled_by_answers :
    (steadyStudioOf (interruptedCollaborators .empty)).FailsOtherwise "voice 0 Hello" "out.opus"
      freshSession ∧
    (steadyStudioOf instantCollaborators).FailsOtherwise "voice 0 Hello" "out.opus" freshSession ∧
    driveStudio.FailsOtherwise "voice 0 Hello" "out.opus"
      { freshSession with shelf := { disk := blockedDisk } } := by
  have hw : ∀ collaborators, ¬ 1 < (steadyStudioOf collaborators).setup.workers :=
    fun _ => Nat.lt_irrefl 1
  have hspoken : ∀ phrase r u, ∃ content, Build.generated
      (steadyStudioOf (interruptedCollaborators phrase)).setup r u = .ok content := by
    rintro phrase ⟨⟨role, text⟩, hint, line⟩ u
    cases role with
    | voice => exact ⟨_, rfl⟩
    | sound => exact ⟨_, rfl⟩
  have hinstant : ∀ r u, ∃ content,
      Build.generated (steadyStudioOf instantCollaborators).setup r u = .ok content := by
    rintro ⟨⟨role, text⟩, hint, line⟩ u
    cases role with
    | voice => exact ⟨_, rfl⟩
    | sound => exact ⟨_, rfl⟩
  refine ⟨?_, ?_, ?_⟩
  · exact failsOtherwise_of_greeting (hw _) (hspoken _) (fun _ _ => ⟨_, _, rfl⟩)
      (by decide +kernel) _
  · exact failsOtherwise_of_greeting (hw _) hinstant (fun _ _ => ⟨_, _, rfl⟩)
      (by decide +kernel) _
  · exact failsOtherwise_of_greeting (hw _) (hspoken _) (fun _ _ => ⟨_, _, rfl⟩)
      (by decide +kernel) _

end Soundstage
