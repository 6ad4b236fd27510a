import Soundstage.Asset.Store

/-!
# Several callers of one asset

Callers in several processes that share a folder want the same asset. Each goes through the phases
of a call: it looks for the asset, waits for the lock that its process keeps for the asset, looks
again, makes the lock file, waits for the lock on it, looks a last time, and only then generates.
`Step` lets one caller take one step, so that every order in which the callers run is a chain of
steps.
-/

namespace Soundstage

variable {R : Type} {callers processes : Nat}

/-- How far a call has come. -/
inductive Phase (R : Type) where
  /-- Nothing has been done yet. -/
  | called
  /-- It waits for the lock of its process. -/
  | waiting
  /-- It holds the lock of its process. -/
  | admitted
  /-- It makes the lock file. -/
  | reserving
  /-- It waits for the lock on the lock file. -/
  | queued
  /-- It holds both locks. -/
  | locked
  /-- Its generator runs. -/
  | generating
  /-- It has been given bytes. -/
  | writing (content : ByteArray)
  /-- It has written the bytes to a temporary file. -/
  | moving (temporary : String)
  /-- It has its result and still holds its locks. -/
  | leaving (result : Except (Failure R) String)
  /-- It has returned. -/
  | finished (result : Except (Failure R) String)

/-- What the callers of an asset have in common: the asset, where it is kept, the process of each
caller and the number of each process. -/
structure Flight (callers processes : Nat) where
  root : String
  extension : String
  key : AssetKey
  home : Fin callers → Fin processes
  number : Fin processes → Nat

/-- A moment of a flight. -/
structure Moment (R : Type) (callers processes : Nat) where
  disk : Disk
  phase : Fin callers → Phase R
  /-- Who holds the lock of each process. -/
  inside : Fin processes → Option (Fin callers)
  /-- Who holds the lock on the lock file. -/
  holder : Option (Fin callers)
  stats : Fin processes → Stats
  /-- How many temporary files each process has named. -/
  temporaries : Fin processes → Nat

/-- A function that has another value at one argument. -/
def withValue {α β : Type} [DecidableEq α] (f : α → β) (a : α) (b : β) : α → β :=
  fun x => if x = a then b else f x

namespace Moment

/-- The first moment: all callers have just called, and no lock is held. -/
def initial (disk : Disk) : Moment R callers processes where
  disk := disk
  phase _ := .called
  inside _ := none
  holder := none
  stats _ := {}
  temporaries _ := 0

/-- A caller comes to a phase. -/
def goto (m : Moment R callers processes) (i : Fin callers) (phase : Phase R) :
    Moment R callers processes :=
  { m with phase := withValue m.phase i phase }

end Moment

namespace Flight

variable (flight : Flight callers processes)

/-- The store as a caller sees it. -/
def store (i : Fin callers) : Store :=
  ⟨flight.root, flight.extension, flight.number (flight.home i)⟩

/-- The path of the asset. -/
def path (i : Fin callers) : String := (flight.store i).pathFor flight.key

/-- A caller looks for the asset. If it is there the caller counts a hit and has its result. -/
def look (m : Moment R callers processes) (i : Fin callers) (missed : Phase R)
    (found : Except (Failure R) String → Phase R) : Moment R callers processes :=
  if m.disk.isFile (flight.path i) then
    let p := flight.home i
    { m with stats := withValue m.stats p (m.stats p).hit }.goto i (found (.ok (flight.path i)))
  else m.goto i missed

/-- A caller makes the lock file. -/
def reserve (m : Moment R callers processes) (i : Fin callers) : Moment R callers processes :=
  match (flight.store i).reserve (flight.path i) m.disk with
  | (.ok (), disk) => { m with disk := disk }.goto i .queued
  | (.error failure, disk) => { m with disk := disk }.goto i (.leaving (.error failure))

/-- The generator of a caller answers. -/
def receive (m : Moment R callers processes) (i : Fin callers)
    (outcome : Except (Failure R) ByteArray) : Moment R callers processes :=
  match outcome with
  | .error failure => m.goto i (.leaving (.error failure))
  | .ok content =>
    match Store.checkContent flight.key content with
    | .error failure => m.goto i (.leaving (.error failure))
    | .ok () => m.goto i (.writing content)

/-- A caller writes its bytes to a temporary file. -/
def write (m : Moment R callers processes) (i : Fin callers) (content : ByteArray) :
    Moment R callers processes :=
  let p := flight.home i
  let temporary := (flight.store i).temporaryPath (flight.path i) (m.temporaries p)
  let m := { m with temporaries := withValue m.temporaries p (m.temporaries p + 1) }
  match Store.writeTemporary temporary content m.disk with
  | (.ok (), disk) => { m with disk := disk }.goto i (.moving temporary)
  | (.error failure, disk) => { m with disk := disk }.goto i (.leaving (.error failure))

/-- A caller moves its temporary file to the place of the asset. -/
def move (m : Moment R callers processes) (i : Fin callers) (temporary : String) :
    Moment R callers processes :=
  match Store.moveIntoPlace temporary (flight.path i) m.disk with
  | (.ok (), disk) =>
    let p := flight.home i
    { m with disk := disk, stats := withValue m.stats p (m.stats p).generate }.goto i
      (.leaving (.ok (flight.path i)))
  | (.error failure, disk) => { m with disk := disk }.goto i (.leaving (.error failure))

/-- A caller gives back the locks it holds and returns. -/
def leave (m : Moment R callers processes) (i : Fin callers) (result : Except (Failure R) String) :
    Moment R callers processes :=
  let p := flight.home i
  { m with
    inside := if m.inside p = some i then withValue m.inside p none else m.inside
    holder := if m.holder = some i then none else m.holder }.goto i (.finished result)

/-- One caller takes one step. A lock is taken only while nobody holds it. -/
inductive Step : Moment R callers processes → Moment R callers processes → Prop
  | look (m i) : m.phase i = .called → Step m (flight.look m i .waiting .finished)
  | enter (m i) : m.phase i = .waiting → m.inside (flight.home i) = none →
      Step m ({ m with inside := withValue m.inside (flight.home i) (some i) }.goto i .admitted)
  | lookInside (m i) : m.phase i = .admitted → Step m (flight.look m i .reserving .leaving)
  | reserve (m i) : m.phase i = .reserving → Step m (flight.reserve m i)
  | lock (m i) : m.phase i = .queued → m.holder = none →
      Step m ({ m with holder := some i }.goto i .locked)
  | lookLocked (m i) : m.phase i = .locked → Step m (flight.look m i .generating .leaving)
  | receive (m i outcome) : m.phase i = .generating → Step m (flight.receive m i outcome)
  | write (m i content) : m.phase i = .writing content → Step m (flight.write m i content)
  | move (m i temporary) : m.phase i = .moving temporary → Step m (flight.move m i temporary)
  | leave (m i result) : m.phase i = .leaving result → Step m (flight.leave m i result)

/-- The moments that come after the first one. -/
inductive Reachable (disk : Disk) : Moment R callers processes → Prop
  | initial : Reachable disk (.initial disk)
  | step {m n : Moment R callers processes} :
      Reachable disk m → flight.Step m n → Reachable disk n

end Flight

end Soundstage
