import Soundstage.Proofs.Timeline.Live
import Soundstage.Proofs.Timeline.Requests

/-!
# What a build never takes back

Between two moments of a build no asset that is found is lost or changed, generators are only called
for assets that were absent at the first moment, and a request to give up stays. This holds of every
store and of all collaborators, and whether the build succeeds or fails, so that an asset is never
generated again once a request for it has been answered. All of this is kept by each call of a
build, and a command that the build comes to does call for its asset, because it is not refused.
Among collaborators that are calm, nobody requests to give up either.
-/

namespace Soundstage

variable {R σ : Type}

/-- The asset that a call generates. -/
def Call.key? : Call R → Option AssetKey
  | speech phrase => some ⟨.voice, phrase⟩
  | sound description _ => some ⟨.sound, description⟩
  | probe _ | render _ _ => none

theorem Store.pathFor_congr {store other : Store} (hroot : other.root = store.root)
    (hextension : other.extension = store.extension) (key : AssetKey) :
    other.pathFor key = store.pathFor key := by
  unfold pathFor
  rw [hroot, hextension]

/-- The calls of a session that an earlier one has not made, latest first. -/
def Session.callsSince (t s : Session R σ) : List (CallRecord R) :=
  t.surroundings.calls.take (t.surroundings.calls.length - s.surroundings.calls.length)

/-- Since an earlier moment of a session a generator has been called for an asset. -/
def Session.GeneratedSince (t s : Session R σ) (key : AssetKey) : Prop :=
  ∃ record ∈ t.callsSince s, record.call.key? = some key

theorem Session.callsSince_of_append {s t : Session R σ} {recent : List (CallRecord R)}
    (h : t.surroundings.calls = recent ++ s.surroundings.calls) : t.callsSince s = recent := by
  unfold callsSince
  rw [h, List.length_append, Nat.add_sub_cancel, List.take_left]

/-- What a moment of a session has kept of an earlier one. -/
structure Store.Ensues (store : Store) (s t : Session R σ) : Prop where
  keeps : ∀ key content, s.shelf.disk.Holds (store.pathFor key) content →
    t.shelf.disk.Holds (store.pathFor key) content
  calls : ∃ recent, t.surroundings.calls = recent ++ s.surroundings.calls ∧
    ∀ record ∈ recent, ∀ key, record.call.key? = some key →
      s.shelf.disk.isFile (store.pathFor key) = false
  cancelled : s.surroundings.cancelled = true → t.surroundings.cancelled = true

/-- Nobody is the first to request to give up. -/
structure Collaborators.Calm (c : Collaborators R σ) : Prop where
  speech : ∀ phrase state, (c.speech phrase false state).cancels = false
  sound : ∀ description hint state, (c.sound description hint false state).cancels = false
  probe : ∀ path disk state, (c.probe path disk false state).cancels = false
  meanwhile : ∀ state, (c.meanwhile state).1 = false

theorem calm_constant (speech sound : Except (Failure Float) ByteArray)
    (length : Except (Failure Float) Float) : (constantCollaborators speech sound length).Calm :=
  ⟨fun _ _ => rfl, fun _ _ _ => rfl, fun _ _ _ => rfl, fun _ => rfl⟩

namespace Store.Ensues

variable {store : Store} {s t u : Session R σ} {key : AssetKey}

theorem isFile (h : store.Ensues s t) (hf : s.shelf.disk.isFile (store.pathFor key) = true) :
    t.shelf.disk.isFile (store.pathFor key) = true := by
  obtain ⟨content, hholds⟩ := Disk.isFile_iff.mp hf
  exact (h.keeps key content hholds).isFile

theorem refl (store : Store) (s : Session R σ) : store.Ensues s s where
  keeps := fun _ _ h => h
  calls := ⟨[], rfl, by simp⟩
  cancelled := id

theorem trans (h : store.Ensues s t) (h' : store.Ensues t u) : store.Ensues s u where
  keeps := fun key content hholds => h'.keeps key content (h.keeps key content hholds)
  calls := by
    obtain ⟨recent, hcalls, habsent⟩ := h.calls
    obtain ⟨recent', hcalls', habsent'⟩ := h'.calls
    refine ⟨recent' ++ recent, by rw [hcalls', hcalls, List.append_assoc], ?_⟩
    intro record hrecord key hkey
    rcases List.mem_append.mp hrecord with hnew | hold
    · -- What is absent later was absent before.
      have hlater := habsent' record hnew key hkey
      cases hf : s.shelf.disk.isFile (store.pathFor key) with
      | false => rfl
      | true =>
          rw [h.isFile hf] at hlater
          cases hlater
    · exact habsent record hold key hkey
  cancelled := fun hc => h'.cancelled (h.cancelled hc)

/-- What is found is not generated any more. -/
theorem not_generatedSince (h : store.Ensues s t)
    (hf : s.shelf.disk.isFile (store.pathFor key) = true) : ¬ t.GeneratedSince s key := by
  rintro ⟨record, hrecord, hkey⟩
  obtain ⟨recent, hcalls, habsent⟩ := h.calls
  rw [Session.callsSince_of_append hcalls] at hrecord
  rw [habsent record hrecord key hkey] at hf
  cases hf

theorem not_cancelled (h : store.Ensues s t) (ht : t.surroundings.cancelled = false) :
    s.surroundings.cancelled = false := by
  cases hs : s.surroundings.cancelled with
  | false => rfl
  | true =>
      rw [h.cancelled hs] at ht
      cases ht

end Store.Ensues

namespace Build

variable {setup : Setup R σ} {s t : Session R σ} {r : Request R} {path : String}

/-- What the store answers to a request. -/
def storeAnswer (setup : Setup R σ) (r : Request R) (s : Session R σ) : Except (Failure R) String :=
  (setup.store.ensure r.key (setup.collaborators.generate r.key r.hint) s.shelf s.surroundings).1

/-- A call for a request is one to the store, which also says what it leaves behind. -/
theorem ensures_and_materialize_eq (setup : Setup R σ) (r : Request R) (s : Session R σ) :
    setup.store.Ensures r.key (setup.collaborators.generate r.key r.hint) s.shelf s.surroundings
        (storeAnswer setup r s) ((materialize setup r).behind s).shelf
        ((materialize setup r).behind s).surroundings ∧
      materialize setup r s = match storeAnswer setup r s with
        | .ok path => .ok path ((materialize setup r).behind s)
        | .error failure => .error (r.failure failure) ((materialize setup r).behind s) := by
  unfold storeAnswer
  match he : setup.store.ensure r.key (setup.collaborators.generate r.key r.hint) s.shelf
      s.surroundings with
  | (.ok path, shelf, surroundings) =>
      have hm : materialize setup r s = .ok path ⟨shelf, surroundings⟩ := by
        unfold materialize
        rw [he]
      rw [Work.behind_of_ok hm]
      exact ⟨Store.ensures he, hm⟩
  | (.error failure, shelf, surroundings) =>
      have hm : materialize setup r s = .error (r.failure failure) ⟨shelf, surroundings⟩ := by
        unfold materialize
        rw [he]
      rw [Work.behind_of_error hm]
      exact ⟨Store.ensures he, hm⟩

/-- An asset that a request has been answered with is found. -/
theorem isFile_of_materialize (h : materialize setup r s = .ok path t) :
    t.shelf.disk.isFile (setup.store.pathFor r.key) = true := by
  obtain ⟨hensures, hm⟩ := ensures_and_materialize_eq setup r s
  rw [Work.behind_of_ok h] at hensures hm
  cases ha : storeAnswer setup r s with
  | ok path =>
      rw [ha] at hensures
      exact hensures.isFile_of_ok
  | error failure =>
      rw [h, ha] at hm
      cases hm

/-- Asking a generator records its call, and only adds to requests to give up. -/
theorem generate_snd (setup : Setup R σ) (r : Request R) (s : Surroundings R σ) :
    (∃ record, (setup.collaborators.generate r.key r.hint s).2.calls = record :: s.calls ∧
      record.call.key? = some r.key) ∧
    (s.cancelled = true → (setup.collaborators.generate r.key r.hint s).2.cancelled = true) := by
  obtain ⟨⟨role, text⟩, hint, line⟩ := r
  unfold Collaborators.generate
  cases role with
  | voice => exact ⟨⟨_, rfl, rfl⟩, fun hs => by simp [Surroundings.ask, hs]⟩
  | sound => exact ⟨⟨_, rfl, rfl⟩, fun hs => by simp [Surroundings.ask, hs]⟩

theorem ensues_materialize (setup : Setup R σ) (r : Request R) (s : Session R σ) :
    setup.store.Ensues s ((materialize setup r).behind s) := by
  obtain ⟨hensures, -⟩ := ensures_and_materialize_eq setup r s
  refine ⟨fun key content hholds => hensures.lasts hholds, ?_, ?_⟩
  · rcases hensures.state_eq with heq | ⟨habsent, heq⟩
    · exact ⟨[], by rw [heq]; rfl, by simp⟩
    · obtain ⟨⟨record, hcalls, hkey⟩, -⟩ := generate_snd setup r s.surroundings
      refine ⟨[record], by rw [heq, hcalls]; rfl, ?_⟩
      intro other hother key hkey'
      rw [List.mem_singleton.mp hother, hkey] at hkey'
      cases hkey'
      exact habsent
  · intro hs
    rcases hensures.state_eq with heq | ⟨-, heq⟩
    · rw [heq, hs]
    · rw [heq]
      exact (generate_snd setup r s.surroundings).2 hs

theorem ensues_probe (setup : Setup R σ) (path : String) (s : Session R σ) :
    setup.store.Ensues s ((Work.probe setup.collaborators path).behind s) := by
  rw [Work.behind_probe]
  refine ⟨fun _ _ h => h, ⟨[⟨.probe path, s.surroundings.cancelled⟩], rfl, ?_⟩, ?_⟩
  · intro record hrecord key hkey
    rw [List.mem_singleton.mp hrecord] at hkey
    cases hkey
  · intro hs
    simp [Surroundings.ask, hs]

theorem ensues_checkpoint (setup : Setup R σ) (what : String) (s : Session R σ) :
    setup.store.Ensues s ((Work.checkpoint setup.collaborators what).behind s) := by
  rw [Work.behind_checkpoint]
  refine ⟨fun _ _ h => h, ⟨[], rfl, by simp⟩, ?_⟩
  intro hs
  simp [hs]

/-- No call of a build takes anything back. -/
theorem upholds_ensues (setup : Setup R σ) : setup.Upholds setup.store.Ensues where
  refl := .refl setup.store
  trans := .trans
  materialize := ensues_materialize setup
  probe := ensues_probe setup
  checkpoint := ensues_checkpoint setup

/-- Work that goes on has not been given up. -/
theorem not_cancelled_of_checkpoint {what : String}
    (h : Work.checkpoint setup.collaborators what s = .ok () t) :
    t.surroundings.cancelled = false := by
  unfold Work.checkpoint at h
  dsimp only at h
  split at h
  · cases h
  · next hcancelled =>
      cases h
      simpa using hcancelled

/-- Between two moments of a session nobody has been the first to request to give up. -/
def StaysQuiet (s t : Session R σ) : Prop :=
  s.surroundings.cancelled = false → t.surroundings.cancelled = false

/-- Among calm collaborators nothing that a build does is a request to give up. -/
theorem upholds_quiet (hcalm : setup.collaborators.Calm) : setup.Upholds StaysQuiet where
  refl := fun _ => id
  trans := fun h h' hs => h' (h hs)
  materialize := by
    intro r s hs
    obtain ⟨hensures, -⟩ := ensures_and_materialize_eq setup r s
    rcases hensures.state_eq with heq | ⟨-, heq⟩
    · rw [heq, hs]
    · rw [heq]
      obtain ⟨⟨role, text⟩, hint, line⟩ := r
      cases role with
      | voice => simp [Collaborators.generate, Surroundings.ask, hs, hcalm.speech]
      | sound => simp [Collaborators.generate, Surroundings.ask, hs, hcalm.sound]
  probe := by
    intro path s hs
    rw [Work.behind_probe]
    simp [Surroundings.ask, hs, hcalm.probe]
  checkpoint := by
    intro what s hs
    rw [Work.behind_checkpoint]
    simp [hs, hcalm.meanwhile]

/-- Behind some commands all assets that they mention are found. -/
theorem isFile_of_commands [Scalar R] {done : List (ScriptLine R)} {p : Progress R}
    (h : commands setup done s = .ok p t) (hr : r ∈ mentions done) :
    t.shelf.disk.isFile (setup.store.pathFor r.key) = true := by
  obtain ⟨line, hline, hrequest⟩ := List.mem_filterMap.mp hr
  obtain ⟨before, after, rfl⟩ := List.append_of_mem hline
  obtain ⟨q, v, -, hrest⟩ := exists_commands_of_append h
  rw [List.foldlM_cons] at hrest
  obtain ⟨q', w, hstep, hrest⟩ := Work.bind_eq_ok.mp hrest
  obtain ⟨next, x, -, happly, -⟩ := step_eq_ok_iff.mp hstep
  have hI := upholds_ensues setup
  obtain ⟨answer, heq, hanswer⟩ := exists_perform_eq hI hrequest q
  obtain ⟨-, happly⟩ := apply_eq_ok_iff.mp happly
  rw [heq] at happly
  obtain ⟨path, y, hmade, hgo⟩ := Work.bind_eq_ok.mp happly
  have hcommand := Work.upto_of_ok hgo (hanswer path y)
  have hothers := Work.upto_of_ok hrest (upholds_foldlM hI (upholds_step hI) after q' w)
  exact (hcommand.trans hothers).isFile (isFile_of_materialize hmade)

section Behind

variable [Scalar R] {lines : List (ScriptLine R)} {u : Session R σ}
  {I : Session R σ → Session R σ → Prop}

/-- What comes behind the answer to a command. -/
theorem upholds_behind_step (hI : setup.Upholds I) {line : ScriptLine R} {t : Session R σ}
    {p : Progress R} (hr : line.request? = some r) (hrecheck : p.recheck line = .ok ())
    (hcheck : Work.checkpoint setup.collaborators "timeline build" t = .ok () u) :
    I ((materialize setup r).behind u) ((step setup p line).behind t) := by
  obtain ⟨next, hperform, hnext⟩ := exists_perform_eq hI hr p
  have hanswer : I ((materialize setup r).behind u) ((apply setup p line).behind u) := by
    rw [apply_of_rechecked hrecheck, hperform]
    exact hI.second hnext u
  have hstep : I ((apply setup p line).behind u) ((step setup p line).behind t) := by
    unfold step
    rw [Work.behind_bind_of_ok (Work.atLine_eq_ok.mpr hcheck)]
    refine hI.second (fun _ w => ?_) u
    exact hI.refl w
  exact hI.trans hanswer hstep

/-- What every call keeps holds from each answer to a request on, up to the end of the build. -/
theorem Asked.upholds_behind (hI : setup.Upholds I) (h : Asked setup lines s r u) :
    I ((materialize setup r).behind u) ((build setup lines).behind s) := by
  cases h with
  | @worker first rest i _ _ outcomes hc hw horder hr hfirst =>
      have hall : I ((runRequests setup (pending setup lines s) (i :: rest)).behind u)
          ((runRequests setup (pending setup lines s) (first ++ i :: rest)).behind s) := by
        have hbehind : (runRequests setup (pending setup lines s) (first ++ i :: rest)).behind s
            = (runRequests setup (pending setup lines s) (i :: rest)
              >>= fun more => return outcomes ++ more).behind u := by
          unfold Work.behind
          rw [runRequests_append hfirst]
        rw [hbehind]
        refine hI.second (fun _ t => ?_) u
        exact hI.refl t
      have hprefetch := upholds_behind_workers hI lines s
      rw [horder] at hprefetch
      exact hI.trans (upholds_behind_runRequests hI hr rest u)
        (hI.trans hall (hI.trans hprefetch (upholds_behind_prefetch hI hc hw s)))
  | @command before line _ p t _ h hr hcheck =>
      have hrecheck := h.recheck
      obtain @⟨after, v, hc, hlines, hopens, hbefore⟩ := h
      have hcommands : I ((step setup p line).behind t) ((commands setup lines).behind v) := by
        rw [hlines, commands_append, Work.behind_bind_of_ok hbefore, List.foldlM_cons]
        exact hI.second (fun q w => upholds_foldlM hI (upholds_step hI) after q w) t
      exact hI.trans (upholds_behind_step hI hr hrecheck hcheck)
        (hI.trans hcommands (upholds_behind_commands hI hc hopens))

end Behind

/-- An asset is found from the answer to a request on, up to the end of the build, and its generator
is not called any more. -/
theorem Asked.isFile_behind [Scalar R] {lines : List (ScriptLine R)} {u : Session R σ}
    (h : Asked setup lines s r u) (hanswer : materialize setup r u = .ok path t) :
    ((build setup lines).behind s).shelf.disk.isFile (setup.store.pathFor r.key) = true ∧
      ¬ ((build setup lines).behind s).GeneratedSince t r.key := by
  have hensues := h.upholds_behind (upholds_ensues setup)
  rw [Work.behind_of_ok hanswer] at hensues
  have hfound := isFile_of_materialize hanswer
  exact ⟨hensues.isFile hfound, hensues.not_generatedSince hfound⟩

end Build

end Soundstage
