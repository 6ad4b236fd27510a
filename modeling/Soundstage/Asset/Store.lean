import Soundstage.Asset.Key
import Soundstage.Disk.Access
import Soundstage.Failure

/-!
# The asset store

Generated assets are kept as files and generated only if they are absent. `Store.ensure` goes
through the stages `present`, `reserve` and `fill`: it answers from the disk, or else makes the
folder and the lock file of the asset and, once it holds the lock, looks again and generates. A
new asset is written to a temporary file beside its place and renamed, so that a file at an
asset's place is always whole.
-/

namespace Soundstage

variable {R σ : Type}

/-- How often assets were found and how often they were generated. -/
structure Stats where
  hits : Nat := 0
  generated : Nat := 0
  deriving DecidableEq, Repr

/-- One more asset was found. -/
def Stats.hit (stats : Stats) : Stats := { stats with hits := stats.hits + 1 }

/-- One more asset was generated. -/
def Stats.generate (stats : Stats) : Stats := { stats with generated := stats.generated + 1 }

/-- Where assets are kept. -/
structure Store where
  root : String
  extension : String
  /-- The number of the running process; it is part of the names of its temporary files. -/
  process : Nat

/-- What the store works on. -/
structure Shelf where
  disk : Disk := {}
  stats : Stats := {}
  /-- How many temporary files the process has named so far. -/
  temporaries : Nat := 0

/-- One more asset was found. -/
def Shelf.hit (shelf : Shelf) : Shelf :=
  { shelf with stats := shelf.stats.hit }

/-- One more asset was generated. -/
def Shelf.generate (shelf : Shelf) : Shelf :=
  { shelf with stats := shelf.stats.generate }

namespace Store

/-- The path of the file of an asset. -/
@[irreducible]
def pathFor (store : Store) (key : AssetKey) : String :=
  Path.join (Path.join store.root key.role.name) (key.fileName store.extension)

/-- The path of the lock that is held while a file is made. -/
def lockPath (path : String) : String := Path.sibling path ".lock"

/-- The path of the `n`-th temporary file, beside the file it is for. -/
def temporaryPath (store : Store) (path : String) (n : Nat) : String :=
  Path.sibling path ("." ++ store.process.repr ++ "." ++ n.repr ++ ".tmp")

/-- The path of an asset that exists. -/
def lookup (store : Store) (key : AssetKey) (disk : Disk) : Option String :=
  if disk.isFile (store.pathFor key) then some (store.pathFor key) else none

/-- Makes the folder of a file and its lock file. -/
def reserve (store : Store) (path : String) (disk : Disk) : Except (Failure R) Unit × Disk :=
  let folder := (Path.parent? path).getD store.root
  match disk.makeFolders folder with
  | (.error fault, disk) =>
    (.error (.refused ("failed to create cache directory '" ++ folder ++ "'") fault), disk)
  | (.ok (), disk) =>
    match disk.touch (lockPath path) with
    | .error fault =>
      (.error (.refused ("failed to open cache lock '" ++ lockPath path ++ "'") fault), disk)
    | .ok disk => (.ok (), disk)

/-- Removes a file if it is there. -/
def discard (path : String) (disk : Disk) : Disk :=
  match disk.remove path with
  | .ok disk => disk
  | .error _ => disk

/-- Writes a temporary file. It is gone if that fails. -/
def writeTemporary (temporary : String) (content : ByteArray) (disk : Disk) :
    Except (Failure R) Unit × Disk :=
  match disk.write temporary content with
  | .error fault =>
    (.error (.refused ("failed to write '" ++ temporary ++ "'") fault), discard temporary disk)
  | .ok disk => (.ok (), disk)

/-- Moves a temporary file to its place. It is gone in either case. -/
def moveIntoPlace (temporary path : String) (disk : Disk) : Except (Failure R) Unit × Disk :=
  match disk.rename temporary path with
  | .error fault =>
    (.error (.refused
        ("failed to move '" ++ temporary ++ "' into place at '" ++ path ++ "'") fault),
      discard temporary disk)
  | .ok disk => (.ok (), disk)

/-- Writes a file as a whole, by way of a temporary file of its own. -/
def writeWhole (store : Store) (path : String) (content : ByteArray) (shelf : Shelf) :
    Except (Failure R) Unit × Shelf :=
  let temporary := store.temporaryPath path shelf.temporaries
  let shelf := { shelf with temporaries := shelf.temporaries + 1 }
  match writeTemporary temporary content shelf.disk with
  | (.error failure, disk) => (.error failure, { shelf with disk := disk })
  | (.ok (), disk) =>
    let (result, disk) := moveIntoPlace temporary path disk
    (result, { shelf with disk := disk })

/-- Refuses generated bytes that are none. -/
def checkContent (key : AssetKey) (content : ByteArray) : Except (Failure R) Unit :=
  if content.isEmpty then .error (.emptyAsset key.role.name key.text) else .ok ()

/-- Keeps generated bytes as an asset. -/
def keep (store : Store) (key : AssetKey) (content : ByteArray) (shelf : Shelf) :
    Except (Failure R) String × Shelf :=
  match checkContent key content with
  | .error failure => (.error failure, shelf)
  | .ok () =>
    let path := store.pathFor key
    match store.writeWhole path content shelf with
    | (.error failure, shelf) => (.error failure, shelf)
    | (.ok (), shelf) => (.ok path, shelf.generate)

/-- What a caller does once it holds the lock of an asset: it looks whether the asset has been made
meanwhile, and otherwise generates it. The generator works on a state of its own. -/
def fill (store : Store) (key : AssetKey) (generate : σ → Except (Failure R) ByteArray × σ)
    (shelf : Shelf) (state : σ) : Except (Failure R) String × Shelf × σ :=
  if shelf.disk.isFile (store.pathFor key) then (.ok (store.pathFor key), shelf.hit, state)
  else match generate state with
    | (.error failure, state) => (.error failure, shelf, state)
    | (.ok content, state) =>
      let (result, shelf) := store.keep key content shelf
      (result, shelf, state)

/-- What a caller does before it waits for the lock: it answers from the disk, or makes the lock
file. No result means that the caller goes on to wait. -/
def approach (store : Store) (key : AssetKey) (shelf : Shelf) :
    Option (Except (Failure R) String) × Shelf :=
  let path := store.pathFor key
  if shelf.disk.isFile path then (some (.ok path), shelf.hit)
  else match store.reserve path shelf.disk with
    | (.error failure, disk) => (some (.error failure), { shelf with disk := disk })
    | (.ok (), disk) => (none, { shelf with disk := disk })

/-- The path of an asset, which is generated if it is absent. -/
def ensure (store : Store) (key : AssetKey) (generate : σ → Except (Failure R) ByteArray × σ)
    (shelf : Shelf) (state : σ) : Except (Failure R) String × Shelf × σ :=
  match store.approach key shelf with
  | (some result, shelf) => (result, shelf, state)
  | (none, shelf) => store.fill key generate shelf state

end Store

end Soundstage
