import Soundstage.Proofs.Asset.Supply
import Soundstage.Proofs.Timeline.Requests
import Soundstage.Proofs.Timeline.Work

/-!
# A build among collaborators that answer alike

`Collaborators.AnswersBy` says that the answers of generators and of the probe are functions of what
they are asked, and that nobody requests to give up. In such surroundings a session is no more than
a table of assets: the lemmas here say for each step of a build that asks somebody what it answers
and what it does to the table, to the record of calls and to the counts.
-/

namespace Soundstage

variable {R σ : Type}

/-- What collaborators answer whose answers depend only on what they are asked. -/
structure Answers (R : Type) where
  speech : String → Except (Failure R) ByteArray
  sound : String → Option R → Except (Failure R) ByteArray
  /-- The length of a file, from its path and its bytes. -/
  length : String → ByteArray → Except (Failure R) R

/-- Collaborators answer alike whenever they are asked the same, and never request to give up. The
failures of generators carry no line. -/
structure Collaborators.AnswersBy (c : Collaborators R σ) (answers : Answers R) : Prop where
  speech : ∀ phrase state, ∃ state',
    c.speech phrase false state = ⟨answers.speech phrase, false, state'⟩
  sound : ∀ description hint state, ∃ state',
    c.sound description hint false state = ⟨answers.sound description hint, false, state'⟩
  probe : ∀ path disk content state, disk.read path = .ok content → ∃ state',
    c.probe path disk false state = ⟨answers.length path content, false, state'⟩
  meanwhile : ∀ state, (c.meanwhile state).1 = false
  speech_line : ∀ phrase failure, answers.speech phrase = .error failure → failure.line? = none
  sound_line : ∀ description hint failure, answers.sound description hint = .error failure →
    failure.line? = none

/-- The call to the generator for a request. -/
def Request.call (r : Request R) : Call R :=
  match r.key.role with
  | .voice => .speech r.key.text
  | .sound => .sound r.key.text r.hint

/-- A call to a generator, not to the probe or to the renderer. -/
def Call.isGeneration : Call R → Bool
  | speech _ | sound _ _ => true
  | probe _ | render _ _ => false

theorem Request.isGeneration_call (r : Request R) : r.call.isGeneration = true := by
  unfold call
  cases r.key.role <;> rfl

/-- All calls to generators so far, earliest first. -/
def Session.generations (s : Session R σ) : List (Call R) :=
  (s.surroundings.calls.map (·.call)).reverse.filter Call.isGeneration

namespace Answers

variable (answers : Answers R) (r : Request R)

/-- What the generator answers to a request. -/
def bytes : Except (Failure R) ByteArray :=
  match r.key.role with
  | .voice => answers.speech r.key.text
  | .sound => answers.sound r.key.text r.hint

/-- What comes of a request for an absent asset. -/
def made : Except (Failure R) ByteArray :=
  (Store.offered r.key (answers.bytes r)).mapError r.failure

/-- What comes of measuring a file for a line. -/
def measured [Scalar R] (path : String) (content : ByteArray) (line : Nat) :
    Except (Failure R) R :=
  match answers.length path content with
  | .error failure => .error (failure.locate line)
  | .ok length =>
    if Scalar.IsLength length then .ok length
    else .error (Failure.locate line (.unplayable path length))

end Answers

namespace Work

/-- The end of a computation with the given outcome. -/
def ends {α : Type} (outcome : Except (Failure R) α) (t : Session R σ) :
    EStateM.Result (Failure R) (Session R σ) α :=
  match outcome with
  | .ok a => .ok a t
  | .error failure => .error failure t

end Work

/-- What a build relies on that generates ahead: collaborators that answer alike, an extension
without slashes, keys of distinct digests, files that are found, and that at the start each asset
could be stored. -/
structure Setup.Undisturbed (setup : Setup R σ) (answers : Answers R) (keys : List AssetKey)
    (start : Shelf) : Prop where
  answers : setup.collaborators.AnswersBy answers
  extension : Path.IsPart setup.store.extension
  apart : ∀ key ∈ keys, ∀ other ∈ keys, AssetKey.Apart key other
  finds : ∀ key ∈ keys, setup.store.Finds key start.disk
  stores : ∀ key ∈ keys, setup.store.CanStore R keys.length start key

/-- The bytes that a session keeps for a key. -/
def Setup.kept (setup : Setup R σ) (s : Session R σ) (key : AssetKey) : Option ByteArray :=
  setup.store.kept key s.shelf.disk

/-- The requests of a list for assets that a session does not keep. -/
def Setup.absent (setup : Setup R σ) (s : Session R σ) (rs : List (Request R)) :
    List (Request R) :=
  missing (fun key => (setup.kept s key).isSome) rs

namespace Build

variable {setup : Setup R σ} {answers : Answers R} {keys : List AssetKey} {start : Shelf}
  {s t u : Session R σ} {r : Request R} {key : AssetKey} {content : ByteArray}

/-- Nobody has requested to give up, and the shelf has only been changed by calls for the keys. -/
structure Quiet (setup : Setup R σ) (keys : List AssetKey) (start : Shelf) (s : Session R σ) :
    Prop where
  quiet : s.surroundings.cancelled = false
  reached : setup.store.Reached R keys start s.shelf

/-- Between two moments of a session no generator has been asked and the shelf has not changed. -/
structure Rests (s t : Session R σ) : Prop where
  shelf : t.shelf = s.shelf
  quiet : t.surroundings.cancelled = s.surroundings.cancelled
  generations : t.generations = s.generations

theorem Rests.refl (s : Session R σ) : Rests s s := ⟨rfl, rfl, rfl⟩

theorem Rests.kept (h : Rests s t) (key : AssetKey) : setup.kept t key = setup.kept s key := by
  unfold Setup.kept
  rw [h.shelf]

theorem Quiet.rests (hs : Quiet setup keys start s) (h : Rests s t) :
    Quiet setup keys start t :=
  ⟨h.quiet.trans hs.quiet, h.shelf ▸ hs.reached⟩

/-- Between two moments of a session the generator has been asked for one request, which has left
the rest of the table as it was. -/
structure Asks (setup : Setup R σ) (keys : List AssetKey) (start : Shelf) (r : Request R)
    (s t : Session R σ) : Prop where
  quiet : Quiet setup keys start t
  generations : t.generations = s.generations ++ [r.call]
  others : ∀ key ∈ keys, key ≠ r.key → setup.kept t key = setup.kept s key

/-- The ways through materializing a request, each with its end. -/
inductive Supplies (setup : Setup R σ) (answers : Answers R) (keys : List AssetKey)
    (start : Shelf) (r : Request R) (s : Session R σ) :
    EStateM.Result (Failure R) (Session R σ) String → Prop
  /-- The asset is there. -/
  | kept {content : ByteArray} (hk : setup.kept s r.key = some content) :
      Supplies setup answers keys start r s
        (.ok (setup.store.pathFor r.key) { s with shelf := s.shelf.hit })
  /-- The asset is made. -/
  | made {content : ByteArray} {t : Session R σ} (hk : setup.kept s r.key = none)
      (hmade : answers.made r = .ok content) (hasks : Asks setup keys start r s t)
      (hkept : setup.kept t r.key = some content)
      (hstats : t.shelf.stats = s.shelf.stats.generate) :
      Supplies setup answers keys start r s (.ok (setup.store.pathFor r.key) t)
  /-- The asset is absent and stays so. -/
  | failed {failure : Failure R} {t : Session R σ} (hk : setup.kept s r.key = none)
      (hmade : answers.made r = .error failure) (hasks : Asks setup keys start r s t)
      (hkept : setup.kept t r.key = none) (hstats : t.shelf.stats = s.shelf.stats) :
      Supplies setup answers keys start r s (.error failure t)

/-- A generator that is asked answers, and its call is recorded. -/
theorem generate_eq (hc : setup.collaborators.AnswersBy answers)
    (hquiet : s.surroundings.cancelled = false) (r : Request R) :
    ∃ after : Surroundings R σ, setup.collaborators.generate r.key r.hint s.surroundings
        = (answers.bytes r, after) ∧
      after.cancelled = false ∧ after.calls = ⟨r.call, false⟩ :: s.surroundings.calls := by
  unfold Collaborators.generate Answers.bytes Request.call
  cases r.key.role with
  | voice =>
      obtain ⟨state', hreply⟩ := hc.speech r.key.text s.surroundings.state
      simp only [Surroundings.ask, hquiet, hreply]
      exact ⟨_, rfl, rfl, rfl⟩
  | sound =>
      obtain ⟨state', hreply⟩ := hc.sound r.key.text r.hint s.surroundings.state
      simp only [Surroundings.ask, hquiet, hreply]
      exact ⟨_, rfl, rfl, rfl⟩

theorem generations_of_calls {call : CallRecord R}
    (h : t.surroundings.calls = call :: s.surroundings.calls) :
    t.generations = s.generations ++ [call.call].filter Call.isGeneration := by
  unfold Session.generations
  rw [h, List.map_cons, List.reverse_cons, List.filter_append]

/-- Every request goes one of the ways. -/
theorem supplies (hu : setup.Undisturbed answers keys start) (hs : Quiet setup keys start s)
    (hkey : r.key ∈ keys) :
    Supplies setup answers keys start r s (materialize setup r s) := by
  unfold materialize
  cases hk : setup.kept s r.key with
  | some content =>
      rw [Store.ensure_of_kept hk]
      exact .kept hk
  | none =>
      obtain ⟨after, hgenerate, hquiet, hcalls⟩ := generate_eq hu.answers hs.quiet r
      match he : setup.store.ensure r.key (setup.collaborators.generate r.key r.hint) s.shelf
          s.surroundings with
      | (result, shelf', after') =>
          have hensures := Store.ensures he
          have hfinds := hs.reached.finds hu.extension
            (fun key hmem => hu.apart key hmem r.key hkey) (hu.finds r.key hkey)
          have hroom :=
            hs.reached.roomy (Store.roomy_begin hu.stores) hu.extension hu.apart hu.finds
          obtain ⟨hafter, hends⟩ := hensures.of_absent hu.extension hfinds
            (hroom.canStore hu.extension hkey R) hk
          rw [hgenerate] at hafter hends
          obtain rfl : after' = after := hafter
          have hasks : Asks setup keys start r s ⟨shelf', after'⟩ := by
            refine ⟨⟨hquiet, hs.reached.ensure hkey hensures⟩, ?_, ?_⟩
            · rw [generations_of_calls hcalls]
              simp [r.isGeneration_call]
            · intro other hother hne
              exact hensures.kept_other hu.extension (hu.apart r.key hkey other hother) hne
                (hs.reached.finds hu.extension (fun key hmem => hu.apart key hmem other hother)
                  (hu.finds other hother))
          rcases hends with ⟨content, hoffered, rfl, hkept, hstats⟩ |
            ⟨failure, hoffered, rfl, hkept, hstats⟩
          · exact .made hk (by rw [Answers.made, hoffered]; rfl) hasks hkept hstats
          · exact .failed hk (by rw [Answers.made, hoffered]; rfl) hasks hkept hstats

theorem probe_eq (hu : setup.Undisturbed answers keys start) (hs : Quiet setup keys start s)
    (hk : setup.kept s key = some content) :
    ∃ t, Rests s t ∧ Work.probe setup.collaborators (setup.store.pathFor key) s
      = Work.ends (answers.length (setup.store.pathFor key) content) t := by
  have hread := (Store.kept_eq_some_iff.mp hk).read
  obtain ⟨state', hreply⟩ := hu.answers.probe _ _ _ s.surroundings.state hread
  let t : Session R σ := { s with surroundings :=
    ⟨false, ⟨.probe (setup.store.pathFor key), false⟩ :: s.surroundings.calls, state'⟩ }
  refine ⟨t, ⟨rfl, hs.quiet.symm, ?_⟩, ?_⟩
  · exact (generations_of_calls (s := s) (t := t) rfl).trans (List.append_nil _)
  · unfold Work.probe Work.ends
    simp only [Surroundings.ask, hs.quiet, hreply, Bool.or_false]
    cases answers.length (setup.store.pathFor key) content <;> rfl

/-- Measuring a file that is kept depends on its bytes only. -/
theorem measure_eq [Scalar R] (hu : setup.Undisturbed answers keys start)
    (hs : Quiet setup keys start s) (hk : setup.kept s key = some content) (line : Nat) :
    ∃ t, Rests s t ∧ measure setup (setup.store.pathFor key) line s
      = Work.ends (answers.measured (setup.store.pathFor key) content line) t := by
  obtain ⟨t, hrests, hprobe⟩ := probe_eq hu hs hk
  refine ⟨t, hrests, ?_⟩
  unfold Answers.measured
  cases hlength : answers.length (setup.store.pathFor key) content with
  | error failure =>
      have hline : Work.atLine line (Work.probe setup.collaborators (setup.store.pathFor key)) s
          = .error (failure.locate line) t := by
        unfold Work.atLine
        rw [hprobe, hlength]
        rfl
      exact Work.bind_apply_of_error hline
  | ok length =>
      have hline : Work.atLine line (Work.probe setup.collaborators (setup.store.pathFor key)) s
          = .ok length t := by
        unfold Work.atLine
        rw [hprobe, hlength]
        rfl
      refine (Work.bind_apply_of_ok hline).trans ?_
      by_cases hl : Scalar.IsLength length
      · simp only [if_pos hl]
        rfl
      · simp only [if_neg hl]
        rfl

/-- Nothing stops a build between two commands. -/
theorem checkpoint_eq (hu : setup.Undisturbed answers keys start)
    (hs : Quiet setup keys start s) (line : Nat) (what : String) :
    ∃ t, Rests s t ∧ Work.atLine line (Work.checkpoint setup.collaborators what) s = .ok () t := by
  let t : Session R σ := { s with surroundings := { s.surroundings with
    cancelled := false
    state := (setup.collaborators.meanwhile s.surroundings.state).2 } }
  have hcheck : Work.checkpoint setup.collaborators what s = .ok () t := by
    unfold Work.checkpoint
    simp only [hu.answers.meanwhile, hs.quiet, Bool.or_false, Bool.false_eq_true, if_false]
    rfl
  exact ⟨t, ⟨rfl, hs.quiet.symm, rfl⟩, Work.atLine_eq_ok.mpr hcheck⟩

end Build

/-- What collaborators answer that answer everything alike. -/
def constantAnswers (speech sound : Except (Failure Float) ByteArray)
    (length : Except (Failure Float) Float) : Answers Float :=
  ⟨fun _ => speech, fun _ _ => sound, fun _ _ => length⟩

theorem answersBy_constant {speech sound : Except (Failure Float) ByteArray}
    (length : Except (Failure Float) Float)
    (hspeech : ∀ failure, speech = .error failure → failure.line? = none)
    (hsound : ∀ failure, sound = .error failure → failure.line? = none) :
    (constantCollaborators speech sound length).AnswersBy
      (constantAnswers speech sound length) where
  speech := fun _ _ => ⟨(), rfl⟩
  sound := fun _ _ _ => ⟨(), rfl⟩
  probe := fun _ _ _ _ _ => ⟨(), rfl⟩
  meanwhile := fun _ => rfl
  speech_line := fun _ => hspeech
  sound_line := fun _ _ => hsound

end Soundstage
