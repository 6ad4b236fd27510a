import Soundstage.Proofs.Timeline.Answers
import Soundstage.Proofs.Timeline.Ensuing
import Soundstage.Proofs.Timeline.Steps

/-!
# Calls behind a request to give up

Each call records whether giving up had been requested when it began. Since that request is never
taken back, the calls between two moments fall into early and late ones, `Session.Splits`, and the
late ones of one computation come behind those of another. Between two commands the request is
looked at, so that a command begins without late calls: the only one it can make is the measurement
of a voice that has just been spoken. The tracks that are left at the end are placed without
looking.
-/

namespace Soundstage

variable {R σ : Type}

/-- The calls that a moment has behind an earlier one, latest first: the late ones, which began
when giving up had been requested, behind the early ones. -/
structure Session.Splits (s t : Session R σ) (late early : List (CallRecord R)) : Prop where
  calls : t.surroundings.calls = late ++ early ++ s.surroundings.calls
  cancelled_of_late : ∀ record ∈ late, record.cancelled = true
  not_cancelled_of_early : ∀ record ∈ early, record.cancelled = false
  /-- The renderer is not called. -/
  not_rendered : ∀ record ∈ late ++ early, ∀ out inputs, record.call ≠ .render out inputs
  /-- There are no early calls once giving up has been requested, and this stays so. -/
  requested : s.surroundings.cancelled = true → early = [] ∧ t.surroundings.cancelled = true
  /-- There are no late calls before that. -/
  quiet : t.surroundings.cancelled = false → late = []

namespace Session.Splits

variable {s t u : Session R σ} {late early late' early' : List (CallRecord R)}

/-- A moment that has made no calls and has taken nothing back. -/
theorem of_calls_eq (hcalls : t.surroundings.calls = s.surroundings.calls)
    (hmono : s.surroundings.cancelled = true → t.surroundings.cancelled = true) :
    s.Splits t [] [] where
  calls := hcalls
  cancelled_of_late := by simp
  not_cancelled_of_early := by simp
  not_rendered := by simp
  requested := fun hs => ⟨rfl, hmono hs⟩
  quiet := fun _ => rfl

theorem refl (s : Session R σ) : s.Splits s [] [] := of_calls_eq rfl id

theorem not_cancelled (h : s.Splits t late early) (ht : t.surroundings.cancelled = false) :
    s.surroundings.cancelled = false := by
  cases hs : s.surroundings.cancelled with
  | false => rfl
  | true =>
      rw [(h.requested hs).2] at ht
      cases ht

/-- Either nothing late comes first or nothing early comes second. -/
theorem trans (h : s.Splits t late early) (h' : t.Splits u late' early') :
    s.Splits u (late' ++ late) (early' ++ early) where
  calls := by
    rw [h'.calls, h.calls]
    cases ht : t.surroundings.cancelled with
    | true => simp [(h'.requested ht).1]
    | false => simp [h.quiet ht]
  cancelled_of_late := by
    intro record hrecord
    rcases List.mem_append.mp hrecord with hsecond | hfirst
    · exact h'.cancelled_of_late record hsecond
    · exact h.cancelled_of_late record hfirst
  not_cancelled_of_early := by
    intro record hrecord
    rcases List.mem_append.mp hrecord with hsecond | hfirst
    · exact h'.not_cancelled_of_early record hsecond
    · exact h.not_cancelled_of_early record hfirst
  not_rendered := by
    intro record hrecord
    simp only [List.mem_append] at hrecord
    rcases hrecord with (hrecord | hrecord) | hrecord | hrecord
    · exact h'.not_rendered record (List.mem_append_left _ hrecord)
    · exact h.not_rendered record (List.mem_append_left _ hrecord)
    · exact h'.not_rendered record (List.mem_append_right _ hrecord)
    · exact h.not_rendered record (List.mem_append_right _ hrecord)
  requested := by
    intro hs
    obtain ⟨hearly, ht⟩ := h.requested hs
    obtain ⟨hearly', hu⟩ := h'.requested ht
    exact ⟨by rw [hearly, hearly']; rfl, hu⟩
  quiet := by
    intro hu
    rw [h.quiet (h'.not_cancelled hu), h'.quiet hu]
    rfl

/-- What has been recorded since. -/
theorem callsSince (h : s.Splits t late early) : t.callsSince s = late ++ early :=
  Session.callsSince_of_append h.calls

/-- A single call, late or early. -/
theorem ask {α : Type} (s : Session R σ) (shelf : Shelf) (call : Call R)
    (reply : Bool → σ → Reply R α σ) (hcall : ∀ out inputs, call ≠ .render out inputs) :
    s.Splits ⟨shelf, (s.surroundings.ask call reply).2⟩
      (if s.surroundings.cancelled then [⟨call, true⟩] else [])
      (if s.surroundings.cancelled then [] else [⟨call, false⟩]) := by
  cases hs : s.surroundings.cancelled with
  | true =>
      refine ⟨?_, by simp, by simp, by simpa using hcall, fun _ => ⟨rfl, ?_⟩, fun hquiet => ?_⟩
      · simp [Surroundings.ask, hs]
      · simp [Surroundings.ask, hs]
      · simp [Surroundings.ask, hs] at hquiet
  | false =>
      refine ⟨?_, by simp, by simp, by simpa using hcall, fun hcancelled => ?_, fun _ => rfl⟩
      · simp [Surroundings.ask, hs]
      · rw [hs] at hcancelled
        cases hcancelled

end Session.Splits

theorem Request.call_ne_render (r : Request R) (out : String) (inputs : Nat) :
    r.call ≠ .render out inputs := by
  intro h
  have hgeneration := r.isGeneration_call
  rw [h] at hgeneration
  cases hgeneration

/-- Asking a generator is a single call. -/
theorem Collaborators.exists_generate_eq (c : Collaborators R σ) (r : Request R) :
    ∃ reply : Bool → σ → Reply R ByteArray σ,
      c.generate r.key r.hint = Surroundings.ask r.call reply := by
  obtain ⟨⟨role, text⟩, hint, line⟩ := r
  cases role with
  | voice => exact ⟨c.speech text, rfl⟩
  | sound => exact ⟨c.sound text hint, rfl⟩

namespace Build

variable {setup : Setup R σ} {s t u : Session R σ} {r : Request R} {path : String}
  {late early late' early' : List (CallRecord R)}

theorem splits_probe (setup : Setup R σ) (path : String) (s : Session R σ) :
    s.Splits ((Work.probe setup.collaborators path).behind s)
      (if s.surroundings.cancelled then [⟨.probe path, true⟩] else [])
      (if s.surroundings.cancelled then [] else [⟨.probe path, false⟩]) := by
  rw [Work.behind_probe]
  exact .ask s s.shelf _ _ nofun

theorem splits_checkpoint (setup : Setup R σ) (what : String) (s : Session R σ) :
    s.Splits ((Work.checkpoint setup.collaborators what).behind s) [] [] := by
  rw [Work.behind_checkpoint]
  exact .of_calls_eq rfl fun hs => by simp [hs]

/-- Before giving up is requested, a request calls its generator at most, and early. Only this call
can be where giving up is requested. -/
theorem splits_materialize (setup : Setup R σ) (r : Request R)
    (hs : s.surroundings.cancelled = false) :
    (s.Splits ((materialize setup r).behind s) [] [] ∧
        ((materialize setup r).behind s).surroundings.cancelled = false) ∨
      s.Splits ((materialize setup r).behind s) [] [⟨r.call, false⟩] := by
  obtain ⟨hensures, -⟩ := ensures_and_materialize_eq setup r s
  rcases hensures.state_eq with heq | ⟨-, heq⟩
  · have hcalls := congrArg Surroundings.calls heq
    have hcancelled := congrArg Surroundings.cancelled heq
    exact .inl ⟨.of_calls_eq hcalls fun h => hcancelled.trans h, hcancelled.trans hs⟩
  · obtain ⟨reply, hreply⟩ := setup.collaborators.exists_generate_eq r
    have hsplits := Session.Splits.ask s ((materialize setup r).behind s).shelf r.call reply
      r.call_ne_render
    rw [← hreply, ← heq, hs] at hsplits
    exact .inr hsplits

/-- Late calls of the commands are none, or the measurement of the voice that was spoken last. -/
def AtMostVoice (setup : Setup R σ) (late early : List (CallRecord R)) : Prop :=
  late = [] ∨ ∃ phrase earlier, early = ⟨.speech phrase, false⟩ :: earlier ∧
    late = [⟨.probe (setup.store.pathFor ⟨.voice, phrase⟩), true⟩]

theorem AtMostVoice.append (h : AtMostVoice setup late early) (more : List (CallRecord R)) :
    AtMostVoice setup late (early ++ more) := by
  rcases h with rfl | ⟨phrase, earlier, rfl, rfl⟩
  · exact .inl rfl
  · exact .inr ⟨phrase, earlier ++ more, rfl, rfl⟩

theorem AtMostVoice.not_generating (h : AtMostVoice setup late early) :
    ∀ record ∈ late, record.call.isGeneration = false := by
  intro record hrecord
  rcases h with rfl | ⟨phrase, earlier, -, rfl⟩
  · cases hrecord
  · rw [List.mem_singleton.mp hrecord]
    rfl

variable [Scalar R] {p q : Progress R} {track : Track R} {number : Nat} {line : ScriptLine R}
  {lines : List (ScriptLine R)}

theorem behind_measure (setup : Setup R σ) (path : String) (line : Nat) (s : Session R σ) :
    (measure setup path line).behind s = (Work.probe setup.collaborators path).behind s := by
  rw [← Work.behind_atLine line (Work.probe setup.collaborators path)]
  refine Work.behind_bind_of_still fun length t => ?_
  split <;> rfl

/-- Placing a track measures its loop at most. -/
theorem behind_flush (setup : Setup R σ) (p : Progress R) (track : Track R) (line : Nat)
    (s : Session R σ) :
    (flush setup p track line).behind s = s ∨ (flush setup p track line).behind s
      = (Work.probe setup.collaborators track.path).behind s := by
  unfold flush
  dsimp only
  split
  · exact .inl rfl
  · rw [Work.behind_bind_of_still (by rintro ⟨length, p'⟩ t; dsimp only; split <;> rfl)]
    unfold loopLength
    split
    · exact .inl rfl
    · rw [Work.behind_bind_of_still fun _ _ => rfl, behind_measure]
      exact .inr rfl

/-- A voice that begins before giving up is requested is only late with its measurement, which then
comes right behind its generator. -/
theorem splits_voice (p : Progress R) (number : Nat) (pan : R) (phrase : String)
    (hs : s.surroundings.cancelled = false) :
    ∃ late early, s.Splits ((perform setup p ⟨number, .voice pan phrase⟩).behind s) late early ∧
      AtMostVoice setup late early := by
  have hasset := splits_materialize setup ⟨⟨.voice, phrase⟩, none, number⟩ hs
  unfold perform
  dsimp only
  cases hmade : materialize setup ⟨⟨.voice, phrase⟩, none, number⟩ s with
  | error failure u =>
      rw [Work.behind_of_error hmade] at hasset
      rw [Work.behind_bind_of_error hmade]
      rcases hasset with ⟨hsplits, -⟩ | hsplits
      · exact ⟨[], _, hsplits, .inl rfl⟩
      · exact ⟨[], _, hsplits, .inl rfl⟩
  | ok path u =>
      obtain rfl := materialize_eq_ok hmade
      rw [Work.behind_of_ok hmade] at hasset
      rw [Work.behind_bind_of_ok hmade, Work.behind_bind_of_still fun _ _ => rfl, behind_measure]
      have hprobe := splits_probe setup (setup.store.pathFor ⟨.voice, phrase⟩) u
      rcases hasset with ⟨hsplits, hu⟩ | hsplits
      · rw [hu] at hprobe
        exact ⟨_, _, hsplits.trans hprobe, .inl rfl⟩
      · refine ⟨_, _, hsplits.trans hprobe, ?_⟩
        cases u.surroundings.cancelled with
        | false => exact .inl rfl
        | true => exact .inr ⟨phrase, [], rfl, rfl⟩

/-- What a command does makes no late call but the measurement of its voice, if it begins before
giving up is requested. -/
theorem splits_perform (setup : Setup R σ) (p : Progress R) (line : ScriptLine R)
    (hs : s.surroundings.cancelled = false) :
    ∃ late early, s.Splits ((perform setup p line).behind s) late early ∧
      AtMostVoice setup late early := by
  obtain ⟨number, command⟩ := line
  have hasset : ∀ r, ∃ early, s.Splits ((materialize setup r).behind s) [] early := by
    intro r
    rcases splits_materialize setup r hs with ⟨hsplits, -⟩ | hsplits
    · exact ⟨_, hsplits⟩
    · exact ⟨_, hsplits⟩
  cases command with
  | voice pan phrase => exact splits_voice p number pan phrase hs
  | sound pan duration description =>
      obtain ⟨early, hsplits⟩ := hasset ⟨⟨.sound, description⟩, some duration, number⟩
      refine ⟨[], early, ?_, .inl rfl⟩
      unfold perform
      rw [Work.behind_bind_of_still fun _ _ => rfl]
      exact hsplits
  | backgroundStart pan description =>
      obtain ⟨early, hsplits⟩ := hasset ⟨⟨.sound, description⟩, none, number⟩
      refine ⟨[], early, ?_, .inl rfl⟩
      unfold perform
      rw [Work.behind_bind_of_still fun _ _ => rfl]
      exact hsplits
  | backgroundStop description =>
      rw [perform_backgroundStop_eq]
      split
      · exact ⟨[], [], .refl s, .inl rfl⟩
      · next track htrack =>
          rcases behind_flush setup (p.drop description) track number s with heq | heq
          · rw [heq]
            exact ⟨[], [], .refl s, .inl rfl⟩
          · have hprobe := splits_probe setup track.path s
            rw [hs] at hprobe
            rw [heq]
            exact ⟨[], _, hprobe, .inl rfl⟩
  | wait duration => exact ⟨[], [], .refl s, .inl rfl⟩

/-- A command that begins before giving up is requested makes no late call but the measurement of
its voice. -/
theorem splits_apply (setup : Setup R σ) (p : Progress R) (line : ScriptLine R)
    (hs : s.surroundings.cancelled = false) :
    ∃ late early, s.Splits ((apply setup p line).behind s) late early ∧
      AtMostVoice setup late early := by
  cases hrecheck : p.recheck line with
  | ok _ =>
      rw [apply_of_rechecked hrecheck]
      exact splits_perform setup p line hs
  | error failure =>
      rw [Work.behind_of_error (apply_of_refused hrecheck)]
      exact ⟨[], [], .refl s, .inl rfl⟩

/-- A command first looks whether giving up has been requested. -/
theorem splits_step (p : Progress R) (line : ScriptLine R) (hsplits : s.Splits t late early)
    (hlate : AtMostVoice setup late early) :
    ∃ late early, s.Splits ((step setup p line).behind t) late early ∧
      AtMostVoice setup late early := by
  have hchecked := hsplits.trans (splits_checkpoint setup "timeline build" t)
  unfold step
  cases hcheck : Work.checkpoint setup.collaborators "timeline build" t with
  | error cause u =>
      rw [Work.behind_of_error hcheck] at hchecked
      rw [Work.behind_bind_of_error (Work.atLine_eq_error.mpr ⟨cause, hcheck, rfl⟩)]
      exact ⟨late, early, hchecked, hlate⟩
  | ok _ u =>
      rw [Work.behind_of_ok hcheck] at hchecked
      rw [Work.behind_bind_of_ok (Work.atLine_eq_ok.mpr hcheck),
        Work.behind_bind_of_still fun _ _ => rfl]
      have hu := not_cancelled_of_checkpoint hcheck
      obtain ⟨late', early', hsplits', hlate'⟩ := splits_apply setup p line hu
      have hwhole := hchecked.trans hsplits'
      rw [hchecked.quiet hu, List.append_nil] at hwhole
      exact ⟨late', _, hwhole, hlate'.append _⟩

omit [Scalar R] in
/-- What each round of a loop keeps of the calls since a moment, the loop keeps, however it ends. -/
theorem splits_foldlM {α β : Type} {Q : List (CallRecord R) → List (CallRecord R) → Prop}
    {f : β → α → Work R σ β} (list : List α)
    (hf : ∀ b, ∀ a ∈ list, ∀ t late early, s.Splits t late early → Q late early →
      ∃ late early, s.Splits ((f b a).behind t) late early ∧ Q late early)
    (b : β) (hsplits : s.Splits t late early) (hQ : Q late early) :
    ∃ late early, s.Splits ((list.foldlM f b).behind t) late early ∧ Q late early := by
  induction list generalizing b t late early with
  | nil => exact ⟨late, early, hsplits, hQ⟩
  | cons first rest ih =>
      obtain ⟨late', early', hsplits', hQ'⟩ := hf b first List.mem_cons_self t late early hsplits hQ
      rw [List.foldlM_cons]
      cases hround : f b first t with
      | error failure u =>
          rw [Work.behind_of_error hround] at hsplits'
          rw [Work.behind_bind_of_error hround]
          exact ⟨late', early', hsplits', hQ'⟩
      | ok c u =>
          rw [Work.behind_of_ok hround] at hsplits'
          rw [Work.behind_bind_of_ok hround]
          exact ih (fun b a ha => hf b a (List.mem_cons_of_mem _ ha)) c hsplits' hQ'

/-- However the commands of a script end, their late calls are at most the measurement of one
voice. -/
theorem splits_commands (setup : Setup R σ) (lines : List (ScriptLine R)) (s : Session R σ) :
    ∃ late early, s.Splits ((commands setup lines).behind s) late early ∧
      AtMostVoice setup late early :=
  splits_foldlM lines (fun p line _ _ _ _ => splits_step p line) _ (.refl s) (.inl rfl)

/-- Calls that measure the loops of some tracks. -/
def AreLoopProbes (tracks : List (Track R)) (calls : List (CallRecord R)) : Prop :=
  ∀ record ∈ calls, ∃ track ∈ tracks, record.call = .probe track.path

/-- Placing the tracks that are left measures their loops at most, and does so whether giving up has
been requested or not. -/
theorem splits_flushAll (setup : Setup R σ) (p : Progress R) (s : Session R σ) :
    ∃ late early, s.Splits ((flushAll setup p).behind s) late early ∧
      AreLoopProbes p.live late := by
  refine splits_foldlM (Q := fun late _ => AreLoopProbes p.live late) p.live ?_ _ (.refl s) nofun
  intro q track htrack t late early hsplits hprobes
  unfold flushLeft
  rw [Work.behind_bind_of_still fun _ _ => rfl]
  rcases behind_flush setup q track track.line t with heq | heq
  · rw [heq]
    exact ⟨late, early, hsplits, hprobes⟩
  · rw [heq]
    refine ⟨_, _, hsplits.trans (splits_probe setup track.path t), fun record hrecord => ?_⟩
    rcases List.mem_append.mp hrecord with hnew | hold
    · refine ⟨track, htrack, ?_⟩
      split at hnew
      · rw [List.mem_singleton.mp hnew]
      · cases hnew
    · exact hprobes record hold

end Build

end Soundstage
