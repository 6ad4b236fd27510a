import Soundstage.Tool.Run

/-!
# Watching a program

A program that has been started is looked at in rounds, `Watch.round`, until one look decides how
the waiting ends. `Child.exists_decisive` splits the looks at the first one that decides anything:
the rounds before it change nothing, and behind it there are none. `Invocation.Settles` says what
comes of a run by that look, in the order in which its questions are asked: whether the program has
ended, whether giving up has been requested, whether the limit of time is reached.
-/

namespace Soundstage

variable {σ : Type}

/-! ## The look that decides -/

/-- A look at which the waiting ends: the system answers about the end of the program, giving up has
been requested, or the limit of time in milliseconds is reached. -/
def Look.Decides (limit : Option Nat) (look : Look) : Prop :=
  (∃ answer, look.ended = some answer) ∨ look.cancelled = true ∨
    ∃ most, limit = some most ∧ most ≤ look.elapsed

/-- The endings of the waiting that a look leads to. Each is open only where the ones before it are
not. -/
inductive Look.Leads (limit : Option Nat) (look : Look) : Ending → Prop
  | finished {status : ExitStatus} (hended : look.ended = some (.ok status)) :
      Leads limit look (.finished status)
  | lost {fault : Fault} (hended : look.ended = some (.error fault)) :
      Leads limit look (.lost fault)
  | cancelled (hended : look.ended = none) (hasked : look.cancelled = true) :
      Leads limit look .cancelled
  | overdue {most : Nat} (hended : look.ended = none) (hasked : look.cancelled = false)
      (hlimit : limit = some most) (hmost : most ≤ look.elapsed) :
      Leads limit look (.overdue most)

section Look

variable {limit : Option Nat} {look : Look} {ending : Ending}

theorem Look.leads_of_ending? (h : look.ending? limit = some ending) :
    look.Leads limit ending := by
  unfold ending? at h
  cases hended : look.ended with
  | some answer =>
      rw [hended] at h
      obtain rfl := Option.some.inj h
      cases answer with
      | ok status => exact .finished hended
      | error fault => exact .lost hended
  | none =>
      simp only [hended] at h
      cases hasked : look.cancelled with
      | true =>
          rw [hasked, if_pos rfl] at h
          obtain rfl := Option.some.inj h
          exact .cancelled hended hasked
      | false =>
          simp only [hasked, Bool.false_eq_true, ↓reduceIte] at h
          obtain ⟨most, hlimit, hmost⟩ := Option.bind_eq_some_iff.mp h
          simp only [Option.ite_none_right_eq_some, Option.some.injEq] at hmost
          obtain ⟨hle, rfl⟩ := hmost
          exact .overdue hended hasked hlimit hle

/-- A look decides as soon as one of its questions is answered. -/
theorem Look.decides_iff : look.Decides limit ↔ ∃ ending, look.ending? limit = some ending := by
  constructor
  · intro h
    unfold ending?
    cases hended : look.ended with
    | some answer => exact ⟨_, rfl⟩
    | none =>
        cases hasked : look.cancelled with
        | true => exact ⟨_, rfl⟩
        | false =>
            obtain ⟨answer, hanswer⟩ | hrequest | ⟨most, rfl, hmost⟩ := h
            · rw [hended] at hanswer
              cases hanswer
            · rw [hasked] at hrequest
              cases hrequest
            · exact ⟨.overdue most, by simp [hmost]⟩
  · rintro ⟨ending, h⟩
    cases Look.leads_of_ending? h with
    | finished hended => exact .inl ⟨_, hended⟩
    | lost hended => exact .inl ⟨_, hended⟩
    | cancelled _ hasked => exact .inr (.inl hasked)
    | overdue _ _ hlimit hmost => exact .inr (.inr ⟨_, hlimit, hmost⟩)

end Look

/-- All looks at a program. The answer to waiting behind them is one more look. -/
def Child.polls (p : Child) : List Look := p.looks ++ [⟨some p.last, false, 0⟩]

theorem Child.findSome?_polls (p : Child) (limit : Option Nat) :
    p.polls.findSome? (·.ending? limit) = some (p.ending limit) := by
  unfold polls ending
  rw [List.findSome?_append]
  cases p.looks.findSome? (·.ending? limit) <;> rfl

/-- The first look that decides anything ends the waiting. -/
theorem Child.leads_of_first {p : Child} {limit : Option Nat} {before after : List Look}
    {look : Look} (hpolls : p.polls = before ++ look :: after)
    (hbefore : ∀ earlier ∈ before, ¬ earlier.Decides limit) (hdecides : look.Decides limit) :
    look.Leads limit (p.ending limit) := by
  have hfound := p.findSome?_polls limit
  have hnone : before.findSome? (·.ending? limit) = none := by
    refine List.findSome?_eq_none_iff.mpr fun earlier hearlier => ?_
    have hundecided := hbefore earlier hearlier
    rw [Look.decides_iff, not_exists] at hundecided
    exact Option.eq_none_iff_forall_ne_some.mpr hundecided
  obtain ⟨ending, hlook⟩ := Look.decides_iff.mp hdecides
  rw [hpolls, List.findSome?_append, hnone, Option.none_or, List.findSome?_cons, hlook] at hfound
  obtain rfl : ending = p.ending limit := Option.some.inj hfound
  exact Look.leads_of_ending? hlook

/-- There is a first look that decides, and it ends the waiting. -/
theorem Child.exists_decisive (p : Child) (limit : Option Nat) :
    ∃ before look after, p.polls = before ++ look :: after ∧
      (∀ earlier ∈ before, ¬ earlier.Decides limit) ∧
      look.Decides limit ∧ look.Leads limit (p.ending limit) := by
  obtain ⟨before, look, after, hpolls, hlook, hbefore⟩ :=
    List.findSome?_eq_some_iff.mp (p.findSome?_polls limit)
  have hundecided : ∀ earlier ∈ before, ¬ earlier.Decides limit := by
    intro earlier hearlier hdecides
    obtain ⟨ending, hending⟩ := Look.decides_iff.mp hdecides
    rw [hbefore earlier hearlier] at hending
    cases hending
  have hdecides : look.Decides limit := Look.decides_iff.mpr ⟨_, hlook⟩
  exact ⟨before, look, after, hpolls, hundecided, hdecides,
    leads_of_first hpolls hundecided hdecides⟩

/-! ## The rounds -/

/-- What stands between two looks at a program: what has been done with it, and how the waiting has
ended, if it has. -/
structure Watch where
  acts : List Act
  ending : Option Ending
  deriving DecidableEq

namespace Watch

variable {limit : Option Nat} {look : Look} {looks : List Look} {w : Watch} {ending : Ending}

/-- A program that has just been started. -/
def begun : Watch := ⟨[.start], none⟩

/-- The program is killed and reaped. -/
def stop (w : Watch) (ending : Ending) : Watch := ⟨w.acts ++ [.kill, .reap], some ending⟩

/-- One round: the three questions in their order. A program that has ended by itself is reaped by
the look that sees it. Behind the end of the waiting there is no further round. -/
def round (limit : Option Nat) (w : Watch) (look : Look) : Watch :=
  match w.ending, look.ended with
  | some _, _ => w
  | none, some (.ok status) => ⟨w.acts ++ [.reap], some (.finished status)⟩
  | none, some (.error fault) => w.stop (.lost fault)
  | none, none =>
    if look.cancelled then w.stop .cancelled
    else match limit with
      | some most => if most ≤ look.elapsed then w.stop (.overdue most) else w
      | none => w

theorem round_of_ended (h : w.ending = some ending) : w.round limit look = w := by
  unfold round
  rw [h]

/-- A round whose look decides nothing leaves everything as it is. -/
theorem round_of_undecided (h : ¬ look.Decides limit) : w.round limit look = w := by
  obtain ⟨hended, hrest⟩ := not_or.mp h
  obtain ⟨hasked, hmost⟩ := not_or.mp hrest
  have hnone : look.ended = none := by
    cases hlook : look.ended with
    | none => rfl
    | some answer => exact absurd ⟨answer, hlook⟩ hended
  unfold round
  cases w.ending with
  | some ending => rfl
  | none =>
      simp only [hnone, hasked]
      cases limit with
      | none => simp
      | some most =>
          have hlt : ¬ most ≤ look.elapsed := fun hle => hmost ⟨most, rfl, hle⟩
          simp [hlt]

/-- The round that decides does what its ending asks for. -/
theorem round_of_leads (hw : w.ending = none) (h : look.Leads limit ending) :
    w.round limit look = ⟨w.acts ++ ending.acts, some ending⟩ := by
  unfold round
  rw [hw]
  cases h with
  | finished hended => rw [hended]; rfl
  | lost hended => rw [hended]; rfl
  | cancelled hended hasked => rw [hended, hasked]; rfl
  | overdue hended hasked hlimit hmost =>
      simp only [hended, hasked, hlimit, if_pos hmost]
      rfl

theorem foldl_round_of_undecided (h : ∀ look ∈ looks, ¬ look.Decides limit) :
    looks.foldl (round limit) w = w := by
  induction looks with
  | nil => rfl
  | cons look rest ih =>
      rw [List.foldl_cons, round_of_undecided (h look List.mem_cons_self)]
      exact ih fun later hlater => h later (List.mem_cons_of_mem _ hlater)

theorem foldl_round_of_ended (h : w.ending = some ending) : looks.foldl (round limit) w = w := by
  induction looks with
  | nil => rfl
  | cons look rest ih =>
      rw [List.foldl_cons, round_of_ended h]
      exact ih

/-- Whatever the looks are, the rounds come to the ending of the program and do what it asks for. -/
theorem foldl_round (limit : Option Nat) (p : Child) :
    p.polls.foldl (round limit) begun
      = ⟨.start :: (p.ending limit).acts, some (p.ending limit)⟩ := by
  obtain ⟨before, look, after, hpolls, hbefore, -, hleads⟩ := p.exists_decisive limit
  rw [hpolls, List.foldl_append, foldl_round_of_undecided hbefore, List.foldl_cons,
    round_of_leads rfl hleads, foldl_round_of_ended rfl]
  rfl

end Watch

/-! ## What comes of a run -/

namespace Invocation

variable {i : Invocation} {programs : Programs σ} {disk : Disk} {cancelled : Bool}
  {state state' : σ} {p : Child} {look : Look}

/-- The system takes texts without a NUL character. -/
theorem isPassable_eq : isPassable = fun text => decide ('\x00' ∉ text.toList) := by
  funext text
  unfold isPassable
  rw [String.contains_char_eq]
  simp

/-- The arguments can be passed on, and the system starts the program. -/
structure Starts (i : Invocation) (programs : Programs σ) (disk : Disk) (state : σ) (p : Child)
    (state' : σ) : Prop where
  passable : (i.program :: i.arguments).all isPassable = true
  fits : i.fits = true
  start : programs.start i.program i.arguments disk state = (.ok p, state')

/-- What comes of a program by the look that ends the waiting, and what is done with it. Each way is
open only where the ways before it are not. -/
inductive Settles (i : Invocation) (p : Child) (look : Look) :
    Except ToolFailure ToolOutput → List Act → Prop
  /-- It has ended by itself, whatever else the look shows. -/
  | finished {status : ExitStatus} (hended : look.ended = some (.ok status)) :
      Settles i p look (.ok ⟨status, p.output, p.errors⟩) [.start, .reap]
  /-- The system cannot tell whether it has ended. -/
  | lost {fault : Fault} (hended : look.ended = some (.error fault)) :
      Settles i p look (.error (.lost i.program fault)) [.start, .kill, .reap]
  /-- It runs, and giving up has been requested. -/
  | cancelled (hended : look.ended = none) (hasked : look.cancelled = true) :
      Settles i p look (.error (.cancelled i.program)) [.start, .kill, .reap]
  /-- It runs, and has reached its limit of time. -/
  | overdue {most : Nat} (hended : look.ended = none) (hasked : look.cancelled = false)
      (hlimit : i.limit = some most) (hmost : most ≤ look.elapsed) :
      Settles i p look (.error (.overdue i.program most)) [.start, .kill, .reap]

theorem run_of_cancelled (i : Invocation) (programs : Programs σ) (disk : Disk) (state : σ) :
    i.run programs disk true state = ⟨.error (.cancelled i.name), [], disk, true, state⟩ := rfl

/-- A program that is started is watched to its end. -/
theorem run_of_starts (h : i.Starts programs disk state p state') :
    i.run programs disk false state
      = ⟨i.outcome p, .start :: (p.ending i.limit).acts, p.disk, p.cancelledAtEnd i.limit,
        state'⟩ := by
  unfold run
  simp only [h.passable, h.fits, h.start, Bool.not_true, Bool.false_eq_true, ↓reduceIte]

/-- The look that decides settles the run. -/
theorem settles_of_leads (h : look.Leads i.limit (p.ending i.limit)) :
    i.Settles p look (i.outcome p) (.start :: (p.ending i.limit).acts) := by
  unfold outcome
  generalize p.ending i.limit = ending at h
  cases h with
  | finished hended => exact .finished hended
  | lost hended => exact .lost hended
  | cancelled hended hasked => exact .cancelled hended hasked
  | overdue hended hasked hlimit hmost => exact .overdue hended hasked hlimit hmost

/-- A run starts its program, and the given look is the first one that decides anything. -/
structure DecidedBy (i : Invocation) (programs : Programs σ) (disk : Disk) (state : σ) (p : Child)
    (look : Look) : Prop where
  starts : ∃ state', i.Starts programs disk state p state'
  first : ∃ before after, p.polls = before ++ look :: after ∧
    (∀ earlier ∈ before, ¬ earlier.Decides i.limit) ∧ look.Decides i.limit

theorem Starts.exists_decidedBy (h : i.Starts programs disk state p state') :
    ∃ look, i.DecidedBy programs disk state p look := by
  obtain ⟨before, look, after, hpolls, hbefore, hdecides, -⟩ := p.exists_decisive i.limit
  exact ⟨look, ⟨state', h⟩, before, after, hpolls, hbefore, hdecides⟩

/-- A run comes to what its decisive look settles. -/
theorem DecidedBy.settles (h : i.DecidedBy programs disk state p look) :
    i.Settles p look (i.run programs disk false state).outcome
      (i.run programs disk false state).acts := by
  obtain ⟨⟨state', hstarts⟩, before, after, hpolls, hbefore, hdecides⟩ := h
  rw [run_of_starts hstarts]
  exact settles_of_leads (Child.leads_of_first hpolls hbefore hdecides)

/-- A request to give up decides a run only while the program runs. -/
theorem Settles.of_cancelled {name : String} {acts : List Act}
    (h : i.Settles p look (.error (.cancelled name)) acts) :
    look.ended = none ∧ look.cancelled = true := by
  cases h with
  | cancelled hended hasked => exact ⟨hended, hasked⟩

/-- A failure for want of time carries the limit. -/
theorem Settles.of_overdue {name : String} {most : Nat} {acts : List Act}
    (h : i.Settles p look (.error (.overdue name most)) acts) : i.limit = some most := by
  cases h with
  | overdue _ _ hlimit _ => exact hlimit

/-- A run ends before the program is started, for one of three reasons, or it watches the program
to its end. -/
theorem run_cases (i : Invocation) (programs : Programs σ) (disk : Disk) (cancelled : Bool)
    (state : σ) :
    ((i.run programs disk cancelled state).acts = [] ∧
      ((cancelled = true ∧
          (i.run programs disk cancelled state).outcome = .error (.cancelled i.name)) ∨
        cancelled = false ∧ ∃ name fault,
          (i.run programs disk cancelled state).outcome = .error (.notStarted name fault))) ∨
      cancelled = false ∧ ∃ p state', i.Starts programs disk state p state' := by
  cases cancelled with
  | true => exact .inl ⟨rfl, .inl ⟨rfl, rfl⟩⟩
  | false =>
      by_cases hpassable : (i.program :: i.arguments).all isPassable = true
      · by_cases hfits : i.fits = true
        · match hstart : programs.start i.program i.arguments disk state with
          | (.ok p, state') => exact .inr ⟨rfl, p, state', hpassable, hfits, hstart⟩
          | (.error fault, state') =>
              unfold run
              simp only [hpassable, hfits, hstart, Bool.not_true, Bool.false_eq_true, ↓reduceIte]
              exact .inl ⟨trivial, .inr ⟨trivial, _, _, rfl⟩⟩
        · unfold run
          simp only [hpassable, hfits, Bool.not_true, Bool.not_false, Bool.false_eq_true,
            ↓reduceIte]
          exact .inl ⟨trivial, .inr ⟨trivial, _, _, rfl⟩⟩
      · unfold run
        simp only [hpassable, Bool.not_false, Bool.false_eq_true, ↓reduceIte]
        exact .inl ⟨trivial, .inr ⟨trivial, _, _, rfl⟩⟩

/-- **The outcome of running a program.** If giving up has been requested before, the program is
never started. A program that is started is settled by the first look that decides anything: its end
comes before a request to give up, and the request before the limit of time. The rounds of watching
it do what the run does, and a failure for want of time carries the limit of the run. -/
theorem run_settled_by_first_look (i : Invocation) (programs : Programs σ) (disk : Disk)
    (state : σ) :
    i.run programs disk true state = ⟨.error (.cancelled i.name), [], disk, true, state⟩ ∧
    (∀ p state', i.Starts programs disk state p state' →
      ∃ before look after, p.polls = before ++ look :: after ∧
        (∀ earlier ∈ before, ¬ earlier.Decides i.limit) ∧ look.Decides i.limit ∧
        i.Settles p look (i.run programs disk false state).outcome
          (i.run programs disk false state).acts ∧
        p.polls.foldl (Watch.round i.limit) .begun
          = ⟨(i.run programs disk false state).acts, some (p.ending i.limit)⟩) ∧
    ∀ cancelled name most,
      (i.run programs disk cancelled state).outcome = .error (.overdue name most) →
        i.limit = some most := by
  refine ⟨run_of_cancelled i programs disk state, ?_, ?_⟩
  · intro p state' h
    obtain ⟨look, hdecided⟩ := h.exists_decidedBy
    obtain ⟨before, after, hpolls, hbefore, hdecides⟩ := hdecided.first
    refine ⟨before, look, after, hpolls, hbefore, hdecides, hdecided.settles, ?_⟩
    rw [Watch.foldl_round, run_of_starts h]
  · intro cancelled name most hoverdue
    obtain ⟨-, ⟨-, hcancelled⟩ | ⟨-, _, _, hfailed⟩⟩ | ⟨rfl, p, state', h⟩ :=
      run_cases i programs disk cancelled state
    · rw [hcancelled] at hoverdue
      cases hoverdue
    · rw [hfailed] at hoverdue
      cases hoverdue
    · obtain ⟨look, hdecided⟩ := h.exists_decidedBy
      have hsettles := hdecided.settles
      rw [hoverdue] at hsettles
      exact hsettles.of_overdue

end Invocation

/-- A program that runs at the first look. At the second one giving up has been requested and its
limit is reached, and it may have ended as well. -/
def sleepingChild (ended : Option (Except Fault ExitStatus)) : Child where
  looks := [⟨none, false, 0⟩, ⟨ended, true, 120⟩]
  last := .ok (.exited 0)
  output := ⟨#[111]⟩
  errors := .empty
  disk := {}

/-- A program that is started as that child, whatever it is called. -/
def sleepingPrograms (ended : Option (Except Fault ExitStatus)) : Programs Unit where
  answers _ _ := true
  start _ _ _ _ := (.ok (sleepingChild ended), ())

/-- A shell that may sleep for a tenth of a second. -/
def sleep : Invocation := ⟨"sh", ["-c", "sleep 5"], some 100⟩

theorem Invocation.starts_sleep (ended : Option (Except Fault ExitStatus)) :
    sleep.Starts (sleepingPrograms ended) {} () (sleepingChild ended) () where
  passable := by
    rw [isPassable_eq]
    decide
  fits := by decide
  start := rfl

/-- At the look that decides, the end of the program hides the request and the limit, and where it
runs the request hides the limit. -/
theorem Invocation.run_settled_by_first_look_sleep :
    (∀ ended, sleep.Starts (sleepingPrograms ended) {} () (sleepingChild ended) ()) ∧
    (∃ before look after, (sleepingChild (some (.ok (.exited 3)))).polls = before ++ look :: after ∧
      (∀ earlier ∈ before, ¬ earlier.Decides (some 100)) ∧ look.Decides (some 100) ∧
      sleep.Settles (sleepingChild (some (.ok (.exited 3)))) look
        (.ok ⟨.exited 3, ⟨#[111]⟩, .empty⟩) [.start, .reap]) ∧
    ∃ before look after, (sleepingChild none).polls = before ++ look :: after ∧
      (∀ earlier ∈ before, ¬ earlier.Decides (some 100)) ∧ look.Decides (some 100) ∧
      sleep.Settles (sleepingChild none) look (.error (.cancelled "sh"))
        [.start, .kill, .reap] := by
  have hended := (run_settled_by_first_look sleep (sleepingPrograms (some (.ok (.exited 3)))) {}
    ()).2.1 _ _ (starts_sleep _)
  have hasleep := (run_settled_by_first_look sleep (sleepingPrograms none) {} ()).2.1 _ _
    (starts_sleep _)
  rw [run_of_starts (starts_sleep _)] at hended hasleep
  obtain ⟨before, look, after, hpolls, hbefore, hdecides, hsettles, -⟩ := hended
  obtain ⟨before', look', after', hpolls', hbefore', hdecides', hsettles', -⟩ := hasleep
  exact ⟨starts_sleep, ⟨before, look, after, hpolls, hbefore, hdecides, hsettles⟩,
    before', look', after', hpolls', hbefore', hdecides', hsettles'⟩

end Soundstage
