import Soundstage.Proofs.Timeline.Answers
import Soundstage.Proofs.Timeline.Stages

/-!
# Two builds in lockstep

The commands of a script are run twice, in a session that makes its assets as they come and in one
that has made some of them before. `Build.Twins` says how the two stand at every command: the second
keeps what the first keeps, and what the first will make at the next mention. Every command keeps
them so, and both answer or fail alike. On the way `Build.Accounted` notes what the first one has
made so far, and in which order.
-/

namespace Soundstage

variable {R σ α β : Type}

namespace Work

/-- Two computations end alike: both answer the same, or both fail with the same failure. -/
inductive Alike (blame : Failure R → Prop) (post : α → Session R σ → Session R σ → Prop) :
    EStateM.Result (Failure R) (Session R σ) α → EStateM.Result (Failure R) (Session R σ) α → Prop
  | ok {a : α} {t t' : Session R σ} (h : post a t t') : Alike blame post (.ok a t) (.ok a t')
  | error {failure : Failure R} {t t' : Session R σ} (h : blame failure) :
      Alike blame post (.error failure t) (.error failure t')

variable {blame blame' : Failure R → Prop} {post : α → Session R σ → Session R σ → Prop}
  {post' : β → Session R σ → Session R σ → Prop} {work : Work R σ α} {next : α → Work R σ β}
  {s s' t t' : Session R σ}

theorem Alike.bind (h : Alike blame post (work s) (work s'))
    (hnext : ∀ a t t', post a t t' → Alike blame post' (next a t) (next a t')) :
    Alike blame post' ((work >>= next) s) ((work >>= next) s') := by
  generalize hw : work s = result at h
  generalize hw' : work s' = result' at h
  cases h with
  | ok h =>
      rw [bind_apply_of_ok hw, bind_apply_of_ok hw']
      exact hnext _ _ _ h
  | error h =>
      rw [bind_apply_of_error hw, bind_apply_of_error hw']
      exact .error h

theorem Alike.mono {other : α → Session R σ → Session R σ → Prop}
    {result result' : EStateM.Result (Failure R) (Session R σ) α}
    (h : Alike blame post result result') (hblame : ∀ failure, blame failure → blame' failure)
    (hpost : ∀ a t t', post a t t' → other a t t') : Alike blame' other result result' := by
  cases h with
  | ok h => exact .ok (hpost _ _ _ h)
  | error h => exact .error (hblame _ h)

theorem alike_ends {outcome : Except (Failure R) α}
    (hok : ∀ a, outcome = .ok a → post a t t')
    (herror : ∀ failure, outcome = .error failure → blame failure) :
    Alike blame post (ends outcome t) (ends outcome t') := by
  cases outcome with
  | ok a => exact .ok (hok a rfl)
  | error failure => exact .error (herror failure rfl)

end Work

/-- A generator has failed. -/
def Failure.isGenerationFailed : Failure R → Bool
  | generationFailed _ _ _ => true
  | _ => false

/-- Naming the responsible line makes no failure one of a generator. -/
theorem Failure.locate_of_isGenerationFailed {failure : Failure R} {line : Nat}
    (h : (failure.locate line).isGenerationFailed = true) : failure.locate line = failure := by
  unfold locate at h ⊢
  split at h
  · rfl
  · cases h

namespace Answers

variable {answers : Answers R}

/-- A failure is one that the probe answers with. -/
def ProbeFails (answers : Answers R) (failure : Failure R) : Prop :=
  ∃ path content, answers.length path content = .error failure

/-- If a failure is one of a generator, the probe answers with it. -/
def Measures (answers : Answers R) (failure : Failure R) : Prop :=
  failure.isGenerationFailed = true → answers.ProbeFails failure

/-- The first of some requests that fails, fails with the given failure. -/
def FirstFails (answers : Answers R) (rs : List (Request R)) (failure : Failure R) : Prop :=
  ∃ past r later, rs = past ++ r :: later ∧ (∀ x ∈ past, ∃ content, answers.made x = .ok content) ∧
    answers.made r = .error failure

/-- A failure of a generator is one that the probe answers with, or that of the first request that
fails. -/
def Blames (answers : Answers R) (rs : List (Request R)) (failure : Failure R) : Prop :=
  failure.isGenerationFailed = true → answers.ProbeFails failure ∨ answers.FirstFails rs failure

theorem Measures.blames {failure : Failure R} (h : answers.Measures failure)
    (rs : List (Request R)) : answers.Blames rs failure := fun hf => .inl (h hf)

/-- What the next mention of an asset makes. -/
def upcoming (answers : Answers R) (rs : List (Request R)) (key : AssetKey) : Option ByteArray :=
  (rs.find? (·.key = key)).bind fun r => (answers.made r).toOption

theorem upcoming_cons_self (r : Request R) (rest : List (Request R)) :
    answers.upcoming (r :: rest) r.key = (answers.made r).toOption := by
  unfold upcoming
  rw [List.find?_cons_of_pos (by simp)]
  rfl

theorem upcoming_cons_of_ne {r : Request R} {key : AssetKey} (h : key ≠ r.key)
    (rest : List (Request R)) :
    answers.upcoming (r :: rest) key = answers.upcoming rest key := by
  unfold upcoming
  rw [List.find?_cons_of_neg (by simpa using h.symm)]

theorem probeFails_of_measured [Scalar R] {path : String} {content : ByteArray} {line : Nat}
    {failure : Failure R} (h : answers.measured path content line = .error failure)
    (hf : failure.isGenerationFailed = true) : answers.ProbeFails failure := by
  unfold measured at h
  split at h
  · next cause hlength =>
      cases h
      rw [Failure.locate_of_isGenerationFailed hf]
      exact ⟨path, content, hlength⟩
  · split at h
    · cases h
    · cases h
      cases hf

end Answers

/-- Covering a span fails only for a loop that cannot cover it. -/
theorem tileFrom_eq_error [Scalar R] {loop start span : R} {failure : Failure R}
    (h : tileFrom loop start span = .error failure) : failure = .invalidLoop loop := by
  have htile : tile loop span = .error failure := by
    unfold tileFrom at h
    cases ht : tile loop span with
    | ok tiles =>
        rw [ht] at h
        cases h
    | error cause =>
        rw [ht] at h
        cases h
        rfl
  unfold tile at htile
  split at htile
  · cases htile
    rfl
  · split at htile
    · cases htile
    · dsimp only at htile
      split at htile
      · cases htile
        rfl
      · cases htile

namespace Build

variable {setup : Setup R σ} {answers : Answers R} {keys : List AssetKey} {start : Shelf}
  {s s' t t' : Session R σ} {r : Request R} {rest all : List (Request R)} {key : AssetKey}

/-- How two sessions stand that run the same commands, with the given mentions of assets left. -/
structure Twins (setup : Setup R σ) (answers : Answers R) (keys : List AssetKey) (start : Shelf)
    (rest : List (Request R)) (s s' : Session R σ) : Prop where
  first : Quiet setup keys start s
  second : Quiet setup keys start s'
  kept : ∀ key ∈ keys,
    setup.kept s' key = (setup.kept s key).or (answers.upcoming rest key)

/-- What a session has made since its beginning, of what was absent then: `past`, in this order. -/
structure Accounted (setup : Setup R σ) (answers : Answers R) (begin : Session R σ)
    (all rest past : List (Request R)) (s : Session R σ) : Prop where
  split : setup.absent begin all = past ++ setup.absent s rest
  made : ∀ r ∈ past, ∃ content, answers.made r = .ok content
  generations : s.generations = begin.generations ++ past.map Request.call
  generated : s.shelf.stats.generated = begin.shelf.stats.generated + past.length
  total : s.shelf.stats.total + rest.length = begin.shelf.stats.total + all.length

/-- Two sessions stand side by side, and the first is accounted for. -/
def InStep (setup : Setup R σ) (answers : Answers R) (keys : List AssetKey) (start : Shelf)
    (begin : Session R σ) (all rest : List (Request R)) (s s' : Session R σ) : Prop :=
  Twins setup answers keys start rest s s' ∧
    ∃ past, Accounted setup answers begin all rest past s

theorem Twins.rests (h : Twins setup answers keys start rest s s') (ht : Rests s t)
    (ht' : Rests s' t') : Twins setup answers keys start rest t t' where
  first := h.first.rests ht
  second := h.second.rests ht'
  kept := by
    intro key hkey
    rw [ht.kept, ht'.kept]
    exact h.kept key hkey

theorem Accounted.rests {begin : Session R σ} {past : List (Request R)}
    (h : Accounted setup answers begin all rest past s) (ht : Rests s t) :
    Accounted setup answers begin all rest past t where
  split := by
    have habsent : setup.absent t rest = setup.absent s rest := by
      unfold Setup.absent
      simp only [ht.kept]
    rw [habsent]
    exact h.split
  made := h.made
  generations := ht.generations.trans h.generations
  generated := by
    rw [ht.shelf]
    exact h.generated
  total := by
    rw [ht.shelf]
    exact h.total

theorem InStep.rests {begin : Session R σ}
    (h : InStep setup answers keys start begin all rest s s') (ht : Rests s t)
    (ht' : Rests s' t') : InStep setup answers keys start begin all rest t t' := by
  obtain ⟨htwins, past, haccounted⟩ := h
  exact ⟨htwins.rests ht ht', past, haccounted.rests ht⟩

/-- What the first of two sessions keeps, the second keeps too. -/
theorem Twins.kept_of_some (h : Twins setup answers keys start rest s s') (hkey : key ∈ keys)
    {content : ByteArray} (hk : setup.kept s key = some content) :
    setup.kept s' key = some content := by
  rw [h.kept key hkey, hk]
  rfl

/-- A mention of an asset that is there is counted, and nothing is made. -/
theorem Accounted.kept {begin : Session R σ} {past : List (Request R)}
    (h : Accounted setup answers begin all (r :: rest) past s)
    (hk : (setup.kept s r.key).isSome = true) :
    Accounted setup answers begin all rest past { s with shelf := s.shelf.hit } where
  split := h.split.trans (congrArg _ (missing_cons_of_has hk))
  made := h.made
  generations := h.generations
  generated := h.generated
  total := by
    have htotal := h.total
    have hhit : s.shelf.hit.stats.total = s.shelf.stats.total + 1 := Stats.total_hit _
    rw [List.length_cons] at htotal
    show s.shelf.hit.stats.total + rest.length = begin.shelf.stats.total + all.length
    omega

/-- A mention of an absent asset is the next to be made. -/
theorem Accounted.made_next {begin : Session R σ} {past : List (Request R)}
    (h : Accounted setup answers begin all (r :: rest) past s)
    (hkeys : ∀ x ∈ rest, x.key ∈ keys) (hk : setup.kept s r.key = none)
    {content : ByteArray} (hmade : answers.made r = .ok content)
    (hasks : Asks setup keys start r s t) (hkept : setup.kept t r.key = some content)
    (hstats : t.shelf.stats = s.shelf.stats.generate) :
    Accounted setup answers begin all rest (past ++ [r]) t where
  split := by
    have hnext : setup.absent s (r :: rest) = r :: setup.absent t rest := by
      refine missing_cons_of_absent (by rw [hk]; rfl) fun other hother => ?_
      by_cases heq : other.key = r.key
      · rw [heq, hkept, hk]
        simp
      · rw [hasks.others other.key (hkeys other hother) heq]
        simp [heq]
    rw [h.split, hnext, List.append_assoc]
    rfl
  made := by
    intro x hx
    rcases List.mem_append.mp hx with hx | hx
    · exact h.made x hx
    · rw [List.mem_singleton.mp hx]
      exact ⟨content, hmade⟩
  generations := by
    rw [hasks.generations, h.generations, List.map_append, List.append_assoc]
    rfl
  generated := by
    have hgenerated := h.generated
    have hnext : t.shelf.stats.generated = s.shelf.stats.generated + 1 := by
      rw [hstats]
      rfl
    rw [List.length_append, List.length_singleton]
    omega
  total := by
    have htotal := h.total
    have hnext : t.shelf.stats.total = s.shelf.stats.total + 1 := by
      rw [hstats]
      exact Stats.total_generate _
    rw [List.length_cons] at htotal
    omega

/-- Behind a mention of an asset both sessions keep the asset, and stand as before. -/
theorem Twins.next (h : Twins setup answers keys start (r :: rest) s s')
    (ht : Quiet setup keys start t) (ht' : Quiet setup keys start t')
    {content : ByteArray} (hkept : setup.kept t r.key = some content)
    (hkept' : setup.kept t' r.key = some content)
    (hothers : ∀ key ∈ keys, key ≠ r.key → setup.kept t key = setup.kept s key)
    (hothers' : ∀ key ∈ keys, key ≠ r.key → setup.kept t' key = setup.kept s' key) :
    Twins setup answers keys start rest t t' where
  first := ht
  second := ht'
  kept := by
    intro key hkey
    by_cases heq : key = r.key
    · rw [heq, hkept, hkept']
      rfl
    · rw [hothers key hkey heq, hothers' key hkey heq, h.kept key hkey,
        Answers.upcoming_cons_of_ne heq]

/-- What a session keeps, it keeps behind a request too. -/
theorem Asks.isSome_kept (h : Asks setup keys start r s t)
    (hkept : (setup.kept t r.key).isSome = true) (hkey : key ∈ keys)
    (hk : (setup.kept s key).isSome = true) : (setup.kept t key).isSome = true := by
  by_cases heq : key = r.key
  · rw [heq]
    exact hkept
  · rw [h.others key hkey heq]
    exact hk

theorem Quiet.hit (h : Quiet setup keys start s) (hkey : r.key ∈ keys) {content : ByteArray}
    (hk : setup.kept s r.key = some content) :
    Quiet setup keys start { s with shelf := s.shelf.hit } where
  quiet := h.quiet
  reached := by
    have hensures : setup.store.Ensures r.key (setup.collaborators.generate r.key r.hint) s.shelf
        s.surroundings _ s.shelf.hit s.surroundings :=
      .found (Store.kept_eq_some_iff.mp hk).isFile
    exact h.reached.ensure hkey hensures

/-- Materializing a request keeps two sessions in step. -/
theorem materialize_alike {begin : Session R σ} (hu : setup.Undisturbed answers keys start)
    (hkey : r.key ∈ keys) (hkeys : ∀ x ∈ rest, x.key ∈ keys)
    (h : InStep setup answers keys start begin all (r :: rest) s s') :
    Work.Alike (answers.Blames (setup.absent begin all))
      (fun path t t' => path = setup.store.pathFor r.key ∧
        InStep setup answers keys start begin all rest t t' ∧
        (setup.kept t r.key).isSome = true ∧
        ∀ key ∈ keys, (setup.kept s key).isSome = true → (setup.kept t key).isSome = true)
      (materialize setup r s) (materialize setup r s') := by
  obtain ⟨htwins, past, haccounted⟩ := h
  have hsecond := htwins.kept r.key hkey
  rw [Answers.upcoming_cons_self] at hsecond
  have hs := supplies hu htwins.first hkey
  have hs' := supplies hu htwins.second hkey
  generalize materialize setup r s = result at hs
  generalize materialize setup r s' = result' at hs'
  cases hs with
  | @kept content hk =>
      rw [hk] at hsecond
      have hsome : (setup.kept s r.key).isSome = true := by rw [hk]; rfl
      cases hs' with
      | kept hk' =>
          rw [hsecond] at hk'
          cases hk'
          have hnext := htwins.next (htwins.first.hit hkey hk) (htwins.second.hit hkey hsecond)
            hk hsecond (fun _ _ _ => rfl) (fun _ _ _ => rfl)
          exact .ok ⟨rfl, ⟨hnext, past, haccounted.kept hsome⟩, hsome, fun _ _ hold => hold⟩
      | made hk' =>
          rw [hsecond] at hk'
          cases hk'
      | failed hk' =>
          rw [hsecond] at hk'
          cases hk'
  | @made content t hk hmade hasks hkept hstats =>
      rw [hk, hmade] at hsecond
      have hsome : (setup.kept t r.key).isSome = true := by rw [hkept]; rfl
      cases hs' with
      | kept hk' =>
          rw [hsecond] at hk'
          cases hk'
          have hnext := htwins.next hasks.quiet (htwins.second.hit hkey hsecond) hkept hsecond
            hasks.others (fun _ _ _ => rfl)
          exact .ok ⟨rfl, ⟨hnext, _, haccounted.made_next hkeys hk hmade hasks hkept hstats⟩, hsome,
            fun key hmem => hasks.isSome_kept hsome hmem⟩
      | made hk' =>
          rw [hsecond] at hk'
          cases hk'
      | failed hk' =>
          rw [hsecond] at hk'
          cases hk'
  | @failed failure t hk hmade =>
      rw [hk, hmade] at hsecond
      cases hs' with
      | kept hk' =>
          rw [hsecond] at hk'
          cases hk'
      | made hk' hmade' =>
          rw [hmade] at hmade'
          cases hmade'
      | failed hk' hmade' =>
          rw [hmade] at hmade'
          cases hmade'
          refine .error fun _ => .inr ⟨past, r, missing (fun key => (setup.kept s key).isSome ||
            decide (key = r.key)) rest, ?_, haccounted.made, hmade⟩
          rw [haccounted.split]
          congr 1
          exact missing_cons_of_absent (by rw [hk]; rfl) fun _ _ => rfl

section Commands

variable [Scalar R] {begin : Session R σ} {p : Progress R} {line : Nat}

theorem measure_alike (hu : setup.Undisturbed answers keys start)
    (h : Twins setup answers keys start rest s s') (hkey : key ∈ keys)
    (hsome : (setup.kept s key).isSome = true) (line : Nat) :
    Work.Alike answers.Measures (fun _ t t' => Rests s t ∧ Rests s' t')
      (measure setup (setup.store.pathFor key) line s)
      (measure setup (setup.store.pathFor key) line s') := by
  obtain ⟨content, hk⟩ := Option.isSome_iff_exists.mp hsome
  obtain ⟨t, ht, heq⟩ := measure_eq hu h.first hk line
  obtain ⟨t', ht', heq'⟩ := measure_eq hu h.second (h.kept_of_some hkey hk) line
  rw [heq, heq']
  exact Work.alike_ends (fun _ _ => ⟨ht, ht'⟩) fun _ => Answers.probeFails_of_measured

theorem loopLength_alike (hu : setup.Undisturbed answers keys start)
    (h : Twins setup answers keys start rest s s') (hkey : key ∈ keys)
    (hsome : (setup.kept s key).isSome = true) (p : Progress R) (line : Nat) :
    Work.Alike answers.Measures
      (fun a t t' => a.2.live = p.live ∧ Rests s t ∧ Rests s' t')
      (loopLength setup p (setup.store.pathFor key) line s)
      (loopLength setup p (setup.store.pathFor key) line s') := by
  unfold loopLength
  cases p.loops.lookup (setup.store.pathFor key) with
  | some length => exact .ok ⟨rfl, .refl s, .refl s'⟩
  | none =>
      refine (measure_alike hu h hkey hsome line).bind fun length t t' hrests => ?_
      exact .ok ⟨rfl, hrests⟩

theorem flush_alike (hu : setup.Undisturbed answers keys start)
    (h : Twins setup answers keys start rest s s') (hkey : key ∈ keys)
    (hsome : (setup.kept s key).isSome = true) {track : Track R}
    (hpath : track.path = setup.store.pathFor key) (p : Progress R) (line : Nat) :
    Work.Alike answers.Measures
      (fun q t t' => q.live = p.live ∧ Rests s t ∧ Rests s' t')
      (flush setup p track line s) (flush setup p track line s') := by
  unfold flush
  by_cases hspan : p.clock - track.start ≤ Scalar.millionth
  · simp only [if_pos hspan]
    exact .ok ⟨rfl, .refl s, .refl s'⟩
  · simp only [if_neg hspan, hpath]
    refine (loopLength_alike hu h hkey hsome p line).bind ?_
    rintro ⟨length, q⟩ t t' ⟨hlive, hrests⟩
    cases htile : tileFrom length track.start (p.clock - track.start) with
    | ok tiles => exact .ok ⟨hlive, hrests⟩
    | error failure =>
        refine .error fun hf => ?_
        rw [tileFrom_eq_error htile] at hf
        cases hf

/-- The files of all tracks that play are kept. -/
def Backed (setup : Setup R σ) (keys : List AssetKey) (p : Progress R) (s : Session R σ) : Prop :=
  ∀ track ∈ p.live, ∃ key ∈ keys, track.path = setup.store.pathFor key ∧
    (setup.kept s key).isSome = true

omit [Scalar R] in
theorem Backed.of_live {q : Progress R} (h : Backed setup keys p s) (hlive : q.live ⊆ p.live)
    (hkept : ∀ key ∈ keys, (setup.kept s key).isSome = true → (setup.kept t key).isSome = true) :
    Backed setup keys q t := by
  intro track htrack
  obtain ⟨key, hkey, hpath, hsome⟩ := h track (hlive htrack)
  exact ⟨key, hkey, hpath, hkept key hkey hsome⟩

omit [Scalar R] in
theorem Backed.rests {q : Progress R} (h : Backed setup keys p s) (hlive : q.live ⊆ p.live)
    (ht : Rests s t) : Backed setup keys q t :=
  h.of_live hlive fun key _ hsome => by rwa [ht.kept]

/-- What a command does keeps two sessions in step. -/
theorem perform_alike {sl : ScriptLine R} (hu : setup.Undisturbed answers keys start)
    (hkeys : ∀ x ∈ sl.request?.toList ++ rest, x.key ∈ keys)
    (h : InStep setup answers keys start begin all (sl.request?.toList ++ rest) s s')
    (hp : Backed setup keys p s) :
    Work.Alike (answers.Blames (setup.absent begin all))
      (fun q t t' => InStep setup answers keys start begin all rest t t' ∧ Backed setup keys q t)
      (perform setup p sl s) (perform setup p sl s') := by
  obtain ⟨number, command⟩ := sl
  cases command with
  | voice pan phrase =>
      have hkey := hkeys _ List.mem_cons_self
      refine (materialize_alike hu hkey (fun x hx => hkeys x (List.mem_cons_of_mem _ hx)) h).bind ?_
      rintro _ t t' ⟨rfl, hstep, hsome, hold⟩
      refine ((measure_alike hu hstep.1 hkey hsome number).mono (fun _ hf => hf.blames _)
        fun _ _ _ hpost => hpost).bind ?_
      rintro length u u' ⟨hu, hu'⟩
      exact .ok ⟨hstep.rests hu hu', (hp.of_live (List.Subset.refl _) hold).rests
        (List.Subset.refl _) hu⟩
  | sound pan duration description =>
      refine (materialize_alike hu (hkeys _ List.mem_cons_self)
        (fun x hx => hkeys x (List.mem_cons_of_mem _ hx)) h).bind ?_
      rintro _ t t' ⟨rfl, hstep, hsome, hold⟩
      exact .ok ⟨hstep, hp.of_live (List.Subset.refl _) hold⟩
  | backgroundStart pan description =>
      have hkey := hkeys _ List.mem_cons_self
      refine (materialize_alike hu hkey (fun x hx => hkeys x (List.mem_cons_of_mem _ hx)) h).bind ?_
      rintro _ t t' ⟨rfl, hstep, hsome, hold⟩
      refine .ok ⟨hstep, ?_⟩
      intro track htrack
      rcases List.mem_append.mp htrack with htrack | htrack
      · exact hp.of_live (List.Subset.refl _) hold track htrack
      · rw [List.mem_singleton.mp htrack]
        exact ⟨_, hkey, rfl, hsome⟩
  | backgroundStop description =>
      unfold perform
      cases hfind : p.live.find? (·.description = description) with
      | none =>
          simp only [hfind]
          refine .error fun hf => ?_
          cases hf
      | some track =>
          simp only [hfind]
          obtain ⟨key, hkey, hpath, hsome⟩ := hp track (List.mem_of_find?_eq_some hfind)
          refine (flush_alike hu h.1 hkey hsome hpath _ number).mono (fun _ hf => hf.blames _) ?_
          rintro q t t' ⟨hlive, ht, ht'⟩
          refine ⟨h.rests ht ht', hp.rests ?_ ht⟩
          rw [hlive]
          exact List.eraseP_subset
  | wait duration => exact .ok ⟨h, hp⟩

/-- Every command keeps two sessions in step: whether it is refused does not depend on them. -/
theorem apply_alike {sl : ScriptLine R} (hu : setup.Undisturbed answers keys start)
    (hkeys : ∀ x ∈ sl.request?.toList ++ rest, x.key ∈ keys)
    (h : InStep setup answers keys start begin all (sl.request?.toList ++ rest) s s')
    (hp : Backed setup keys p s) :
    Work.Alike (answers.Blames (setup.absent begin all))
      (fun q t t' => InStep setup answers keys start begin all rest t t' ∧ Backed setup keys q t)
      (apply setup p sl s) (apply setup p sl s') := by
  cases hrecheck : p.recheck sl with
  | ok _ =>
      rw [apply_of_rechecked hrecheck]
      exact perform_alike hu hkeys h hp
  | error failure =>
      rw [apply_of_refused hrecheck, apply_of_refused hrecheck]
      refine .error fun hf => ?_
      rcases recheck_eq_error hrecheck with ⟨duration, rfl⟩ | ⟨description, rfl⟩ <;> cases hf

/-- All commands of a script, by induction on those that are left. -/
theorem foldlM_step_alike {lines : List (ScriptLine R)} (hu : setup.Undisturbed answers keys start)
    (hkeys : ∀ x ∈ mentions lines, x.key ∈ keys)
    (h : InStep setup answers keys start begin all (mentions lines) s s')
    (hp : Backed setup keys p s) :
    Work.Alike (answers.Blames (setup.absent begin all))
      (fun q t t' => InStep setup answers keys start begin all [] t t' ∧ Backed setup keys q t)
      (lines.foldlM (step setup) p s) (lines.foldlM (step setup) p s') := by
  induction lines generalizing p s s' with
  | nil => exact .ok ⟨h, hp⟩
  | cons sl lines ih =>
      rw [mentions_cons] at h hkeys
      rw [List.foldlM_cons]
      have hstep : Work.Alike (answers.Blames (setup.absent begin all))
          (fun q t t' => InStep setup answers keys start begin all (mentions lines) t t' ∧
            Backed setup keys q t) (step setup p sl s) (step setup p sl s') := by
        obtain ⟨t, ht, hcheck⟩ := checkpoint_eq hu h.1.first sl.line "timeline build"
        obtain ⟨t', ht', hcheck'⟩ := checkpoint_eq hu h.1.second sl.line "timeline build"
        unfold step
        rw [Work.bind_apply_of_ok hcheck, Work.bind_apply_of_ok hcheck']
        have happly := apply_alike hu hkeys (h.rests ht ht') (hp.rests (List.Subset.refl _) ht)
        exact happly.bind fun q u u' hq => .ok hq
      exact hstep.bind fun q t t' hq =>
        ih (fun x hx => hkeys x (List.mem_append_right _ hx)) hq.1 hq.2

/-- The tracks that the end of a script stops. -/
theorem foldlM_flushLeft_alike {tracks : List (Track R)}
    (hu : setup.Undisturbed answers keys start)
    (h : InStep setup answers keys start begin all [] s s')
    (htracks : ∀ track ∈ tracks, ∃ key ∈ keys, track.path = setup.store.pathFor key ∧
      (setup.kept s key).isSome = true) :
    Work.Alike (answers.Blames (setup.absent begin all))
      (fun _ t t' => InStep setup answers keys start begin all [] t t')
      (tracks.foldlM (flushLeft setup) p s) (tracks.foldlM (flushLeft setup) p s') := by
  induction tracks generalizing p s s' with
  | nil => exact .ok h
  | cons track tracks ih =>
      rw [List.foldlM_cons]
      obtain ⟨key, hkey, hpath, hsome⟩ := htracks track List.mem_cons_self
      have hleft : Work.Alike (answers.Blames (setup.absent begin all))
          (fun _ t t' => Rests s t ∧ Rests s' t') (flushLeft setup p track s)
          (flushLeft setup p track s') := by
        have hflush := (flush_alike hu h.1 hkey hsome hpath p track.line).mono
          (fun _ hf => hf.blames (setup.absent begin all)) fun _ _ _ hpost => hpost
        exact hflush.bind fun q t t' hq => .ok hq.2
      refine hleft.bind fun q t t' hrests => ih (h.rests hrests.1 hrests.2) ?_
      intro other hother
      rw [show setup.kept t = setup.kept s from funext fun key => hrests.1.kept key]
      exact htracks other (List.mem_cons_of_mem _ hother)

/-- **Two runs in lockstep.** A run that makes its assets as they come and one that has made some of
them before answer or fail alike. -/
theorem run_alike {lines : List (ScriptLine R)} (hu : setup.Undisturbed answers keys start)
    (hkeys : ∀ x ∈ mentions lines, x.key ∈ keys)
    (h : InStep setup answers keys start begin all (mentions lines) s s') :
    Work.Alike (answers.Blames (setup.absent begin all))
      (fun _ t t' => InStep setup answers keys start begin all [] t t')
      (run setup lines s) (run setup lines s') := by
  have hbacked : Backed setup keys ({ clock := Scalar.zero } : Progress R) s := by
    intro track htrack
    cases htrack
  exact (foldlM_step_alike hu hkeys h hbacked).bind fun q t t' hq =>
    foldlM_flushLeft_alike hu hq.1 hq.2

end Commands

end Build

end Soundstage
