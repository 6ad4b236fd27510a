import Soundstage.Asset.Store

/-!
# Histories of a store

A history is a list of calls to a store, each of which changes the shelf and has an answer.
Reopening a store sets its counts back and leaves the disk as it is.
-/

namespace Soundstage

variable {R σ : Type}

/-- A call to a store. -/
inductive StoreCall (R σ : Type) where
  | ensure (key : AssetKey) (generate : σ → Except (Failure R) ByteArray × σ)
  | lookup (key : AssetKey)
  | pathFor (key : AssetKey)
  | reopen

/-- The answer to a call. -/
inductive StoreAnswer (R : Type) where
  | ensured (result : Except (Failure R) String)
  | found (path : Option String)
  | path (path : String)
  | reopened

namespace StoreCall

/-- The answer to one call, and what it leaves behind. -/
def run (store : Store) (shelf : Shelf) (state : σ) :
    StoreCall R σ → StoreAnswer R × Shelf × σ
  | ensure key generate =>
    let (result, shelf, state) := store.ensure key generate shelf state
    (.ensured result, shelf, state)
  | lookup key => (.found (store.lookup key shelf.disk), shelf, state)
  | pathFor key => (.path (store.pathFor key), shelf, state)
  | reopen => (.reopened, { shelf with stats := {} }, state)

/-- The answers to a history, and what it leaves behind. -/
def runAll (store : Store) (shelf : Shelf) (state : σ) :
    List (StoreCall R σ) → List (StoreAnswer R) × Shelf × σ
  | [] => ([], shelf, state)
  | call :: rest =>
    let (answer, shelf, state) := call.run store shelf state
    let (answers, shelf, state) := runAll store shelf state rest
    (answer :: answers, shelf, state)

end StoreCall

end Soundstage
