import Soundstage.Disk.Access
import Soundstage.Number.Scalar
import Soundstage.Number.Style

/-!
# Running other programs

A program is started, looked at again and again until it has ended or has to be stopped, and
cleaned up after. `Look.ending?` says what one look decides: that a program has ended comes before
a request to give up, and the request comes before the limit of time. `Child.ending` is the
decision of the first look that decides anything. `Invocation.run` lists the acts of a run:
whatever has been started is reaped, and is killed before that unless it has ended by itself.
-/

namespace Soundstage

/-- How a program ended by itself. -/
inductive ExitStatus where
  | exited (code : Nat)
  /-- A signal ended it; `dumped` says that the system kept its memory. -/
  | signalled (number : Nat) (dumped : Bool)
  deriving DecidableEq, Repr

namespace ExitStatus

/-- The names of the signals, from the first one on. -/
def signalNames : List String :=
  ["SIGHUP", "SIGINT", "SIGQUIT", "SIGILL", "SIGTRAP", "SIGABRT", "SIGBUS", "SIGFPE", "SIGKILL",
    "SIGUSR1", "SIGSEGV", "SIGUSR2", "SIGPIPE", "SIGALRM", "SIGTERM", "SIGSTKFLT", "SIGCHLD",
    "SIGCONT", "SIGSTOP", "SIGTSTP", "SIGTTIN", "SIGTTOU", "SIGURG", "SIGXCPU", "SIGXFSZ",
    "SIGVTALRM", "SIGPROF", "SIGWINCH", "SIGIO", "SIGPWR", "SIGSYS"]

/-- Whether the program reports that all went well. -/
def isSuccess (status : ExitStatus) : Bool := status = exited 0

/-- The text of a status. -/
def text : ExitStatus → String
  | exited code => "exit status: " ++ code.repr
  | signalled number dumped =>
    let name := match if number = 0 then none else signalNames[number - 1]? with
      | some name => " (" ++ name ++ ")"
      | none => ""
    "signal: " ++ number.repr ++ name ++ (if dumped then " (core dumped)" else "")

end ExitStatus

/-- What is seen when a running program is looked at. -/
structure Look where
  /-- How it has ended, if it has, or why that cannot be told. -/
  ended : Option (Except Fault ExitStatus)
  /-- Whether giving up has been requested. -/
  cancelled : Bool
  /-- The milliseconds since its start. -/
  elapsed : Nat

/-- How waiting for a program ends. -/
inductive Ending where
  /-- The program has ended by itself. -/
  | finished (status : ExitStatus)
  /-- The system cannot tell whether it has. -/
  | lost (fault : Fault)
  /-- Giving up has been requested. -/
  | cancelled
  /-- It has run for longer than its limit in milliseconds. -/
  | overdue (limit : Nat)
  deriving DecidableEq

/-- The ending that the answer to waiting decides. -/
def Ending.ofWait : Except Fault ExitStatus → Ending
  | .ok status => .finished status
  | .error fault => .lost fault

/-- The ending that a look decides under a limit in milliseconds. -/
def Look.ending? (limit : Option Nat) (look : Look) : Option Ending :=
  match look.ended with
  | some answer => some (.ofWait answer)
  | none =>
    if look.cancelled then some .cancelled
    else limit.bind fun most => if most ≤ look.elapsed then some (.overdue most) else none

/-- A program that has been started: what is seen of it, what it writes, and the disk once it is
gone. -/
structure Child where
  looks : List Look
  /-- The answer to waiting after all looks. -/
  last : Except Fault ExitStatus
  output : ByteArray
  errors : ByteArray
  disk : Disk

namespace Child

/-- How waiting for a program ends under a limit: as the first look decides that decides
anything. -/
def ending (limit : Option Nat) (p : Child) : Ending :=
  (p.looks.findSome? (·.ending? limit)).getD (.ofWait p.last)

/-- Whether giving up has been requested by the look that ends the waiting. -/
def cancelledAtEnd (limit : Option Nat) (p : Child) : Bool :=
  (p.looks.find? fun look => (look.ending? limit).isSome).any (·.cancelled)

end Child

/-- What is done with a program. -/
inductive Act where
  | start
  | kill
  | reap
  deriving DecidableEq, Repr

/-- What is done with a program after its start. -/
def Ending.acts : Ending → List Act
  | finished _ => [.reap]
  | lost _ | cancelled | overdue _ => [.kill, .reap]

/-- All that a program has written, and how it ended. -/
structure ToolOutput where
  status : ExitStatus
  output : ByteArray
  errors : ByteArray

/-- What a program has written about its errors, without the blanks around it. -/
def ToolOutput.complaint (o : ToolOutput) : String :=
  Text.trimmed (Utf8.lossy o.errors.data.toList)

/-- Why a run has no output. -/
inductive ToolFailure where
  | notStarted (program : String) (fault : Fault)
  | lost (program : String) (fault : Fault)
  | overdue (program : String) (limit : Nat)
  | cancelled (program : String)
  deriving DecidableEq

namespace ToolFailure

/-- Milliseconds as seconds. -/
def seconds (milliseconds : Nat) : Float :=
  countToFloat (milliseconds / 1000)
    + countToFloat (milliseconds % 1000 * 1000000) / countToFloat 1000000000

/-- The text of a failure. -/
def message : ToolFailure → String
  | notStarted program fault =>
    "failed to spawn '" ++ program ++ "' (is it installed and on PATH?): " ++ fault.message
  | lost program fault => "i/o error while running '" ++ program ++ "': " ++ fault.message
  | overdue program limit =>
    "'" ++ program ++ "' timed out after " ++ Style.fixed 1 (seconds limit) ++ "s"
  | cancelled program => "'" ++ program ++ "' was cancelled"

end ToolFailure

/-- The programs of a system, which may keep a state of their own. -/
structure Programs (σ : Type) where
  /-- Whether a program can be started and succeeds when it is asked for its version. -/
  answers : String → σ → Bool
  /-- Starts a program with arguments. -/
  start : String → List String → Disk → σ → Except Fault Child × σ

/-- A program, its arguments, and the milliseconds it may run. -/
structure Invocation where
  program : String
  arguments : List String
  limit : Option Nat

/-- What has come of an invocation. -/
structure Run (σ : Type) where
  outcome : Except ToolFailure ToolOutput
  acts : List Act
  /-- The disk after the run. -/
  disk : Disk
  /-- Whether giving up has been requested by its end. -/
  cancelled : Bool
  state : σ

namespace Invocation

/-- A text that can be passed to the system. -/
def isPassable (text : String) : Bool := !text.contains '\x00'

/-- The longest argument of a program, in bytes. -/
def longestArgument : Nat := 131071

/-- The bytes that all arguments may take, each with the byte that ends it and the eight bytes of
its address. -/
def mostBytes : Nat := 2097152

/-- Whether the arguments are few and short enough to be passed to the program. -/
def fits (i : Invocation) : Bool :=
  i.arguments.all (·.utf8ByteSize ≤ longestArgument)
    && i.arguments.foldl (fun bytes text => bytes + text.utf8ByteSize + 9) 0 ≤ mostBytes

/-- How the program is named in messages. -/
def name (i : Invocation) : String :=
  if isPassable i.program then i.program else "<string-with-nul>"

/-- The outcome of a program that has been started. -/
def outcome (i : Invocation) (p : Child) : Except ToolFailure ToolOutput :=
  match p.ending i.limit with
  | .finished status => .ok ⟨status, p.output, p.errors⟩
  | .lost fault => .error (.lost i.program fault)
  | .cancelled => .error (.cancelled i.program)
  | .overdue limit => .error (.overdue i.program limit)

/-- Runs a program, unless giving up has been requested before. -/
def run {σ : Type} (i : Invocation) (programs : Programs σ) (disk : Disk) (cancelled : Bool)
    (state : σ) : Run σ :=
  if cancelled then ⟨.error (.cancelled i.name), [], disk, true, state⟩
  else if !(i.program :: i.arguments).all isPassable then
    ⟨.error (.notStarted i.name .nulInArgument), [], disk, false, state⟩
  else if !i.fits then
    ⟨.error (.notStarted i.name .argumentsTooLong), [], disk, false, state⟩
  else match programs.start i.program i.arguments disk state with
    | (.error fault, state) => ⟨.error (.notStarted i.program fault), [], disk, false, state⟩
    | (.ok p, state) =>
      ⟨i.outcome p, .start :: (p.ending i.limit).acts, p.disk, p.cancelledAtEnd i.limit, state⟩

end Invocation

end Soundstage
