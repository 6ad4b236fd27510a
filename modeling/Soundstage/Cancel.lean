import Soundstage.Failure

/-!
# Requests to give up

A request to give up is a flag that is never taken back. `Tokens` is a set of such flags with the
handles under which they are known: several handles can share one flag.
-/

namespace Soundstage

/-- Fails if giving up has been requested; `what` names the work. -/
def checkCancelled {R : Type} (cancelled : Bool) (what : String) : Except (Failure R) Unit :=
  if cancelled then .error (.cancelled what) else .ok ()

/-- Flags, and the flag of each handle. -/
structure Tokens where
  flags : List Bool := [false]
  handles : List Nat := [0]
  deriving DecidableEq, Repr

namespace Tokens

/-- Whether giving up has been requested through any handle that shares the flag of this one. -/
def isCancelled (t : Tokens) (handle : Nat) : Bool :=
  ((t.handles[handle]?).bind (t.flags[·]?)).getD false

/-- A new handle with a flag of its own. -/
def fresh (t : Tokens) : Nat × Tokens :=
  (t.handles.length, ⟨t.flags ++ [false], t.handles ++ [t.flags.length]⟩)

/-- A new handle that shares the flag of a given one. -/
def share (t : Tokens) (handle : Nat) : Nat × Tokens :=
  (t.handles.length, { t with handles := t.handles ++ [(t.handles[handle]?).getD t.flags.length] })

/-- Requests to give up. -/
def cancel (t : Tokens) (handle : Nat) : Tokens :=
  match t.handles[handle]? with
  | some flag => { t with flags := t.flags.set flag true }
  | none => t

end Tokens

end Soundstage
