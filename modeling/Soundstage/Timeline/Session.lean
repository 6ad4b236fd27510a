import Soundstage.Asset.Store

/-!
# Sessions and collaborators

A build works in a `Session`: the shelf of assets, the request to give up, the record of calls, and
a state that belongs to the collaborators. Collaborators generate, measure and render; they are
functions of what they are asked, of the session's request to give up and of their own state, and
they may make that request themselves. Once made, it stays.
-/

namespace Soundstage

/-- A call to a collaborator. -/
inductive Call (R : Type) where
  | speech (phrase : String)
  | sound (description : String) (hint : Option R)
  | probe (path : String)
  | render (out : String) (inputs : Nat)
  deriving DecidableEq

/-- A call, and whether giving up had been requested when it began. -/
structure CallRecord (R : Type) where
  call : Call R
  cancelled : Bool
  deriving DecidableEq

/-- How a collaborator answers. -/
structure Reply (R α σ : Type) where
  outcome : Except (Failure R) α
  /-- Whether giving up is requested during the call. -/
  cancels : Bool
  /-- The state of the collaborators after the call. -/
  state : σ

/-- Those who generate and measure clips. Each is told whether giving up has been requested. -/
structure Collaborators (R σ : Type) where
  /-- Speaks a phrase. -/
  speech : String → Bool → σ → Reply R ByteArray σ
  /-- Generates a sound from a description and a wished length. -/
  sound : String → Option R → Bool → σ → Reply R ByteArray σ
  /-- Measures the length of a file. -/
  probe : String → Disk → Bool → σ → Reply R R σ
  /-- What happens elsewhere before the next command runs: whether giving up is requested. -/
  meanwhile : σ → Bool × σ

/-- The part of a session that lies outside of the store. -/
structure Surroundings (R σ : Type) where
  cancelled : Bool := false
  /-- All calls so far, latest first. -/
  calls : List (CallRecord R) := []
  state : σ

/-- What a build works in. -/
structure Session (R σ : Type) where
  shelf : Shelf := {}
  surroundings : Surroundings R σ

/-- A computation that works in a session and may fail. What it did before it failed stays done. -/
abbrev Work (R σ α : Type) := EStateM (Failure R) (Session R σ) α

variable {R σ α : Type}

/-- Calls a collaborator and records the call. -/
def Surroundings.ask (call : Call R) (reply : Bool → σ → Reply R α σ) (s : Surroundings R σ) :
    Except (Failure R) α × Surroundings R σ :=
  let r := reply s.cancelled s.state
  (r.outcome,
    { cancelled := s.cancelled || r.cancels
      calls := ⟨call, s.cancelled⟩ :: s.calls
      state := r.state })

/-- Calls the generator for an asset. -/
def Collaborators.generate (c : Collaborators R σ) (key : AssetKey) (hint : Option R) :
    Surroundings R σ → Except (Failure R) ByteArray × Surroundings R σ :=
  match key.role with
  | .voice => Surroundings.ask (.speech key.text) (c.speech key.text)
  | .sound => Surroundings.ask (.sound key.text hint) (c.sound key.text hint)

namespace Work

/-- Lets the time before the next command pass, and fails if giving up has been requested. -/
def checkpoint (c : Collaborators R σ) (what : String) : Work R σ Unit := fun s =>
  let (cancels, state) := c.meanwhile s.surroundings.state
  let cancelled := s.surroundings.cancelled || cancels
  let s := { s with surroundings := { s.surroundings with cancelled := cancelled, state := state } }
  if cancelled then .error (.cancelled what) s else .ok () s

/-- Measures a file. -/
def probe (c : Collaborators R σ) (path : String) : Work R σ R := fun s =>
  match s.surroundings.ask (.probe path) (c.probe path s.shelf.disk) with
  | (.ok secs, surroundings) => .ok secs { s with surroundings := surroundings }
  | (.error failure, surroundings) => .error failure { s with surroundings := surroundings }

/-- Names the responsible line of the failures of a computation. -/
def atLine (line : Nat) (work : Work R σ α) : Work R σ α := fun s =>
  match work s with
  | .ok a s => .ok a s
  | .error failure s => .error (failure.locate line) s

/-- Runs a computation to its outcome, which is never a failure of this computation. -/
def outcome (work : Work R σ α) : Work R σ (Except (Failure R) α) := fun s =>
  match work s with
  | .ok a s => .ok (.ok a) s
  | .error failure s => .ok (.error failure) s

end Work

end Soundstage
