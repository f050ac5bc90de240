import EntityStore.Store.TableOp
/-!
# Repositories

A repository holds the current storage, the storages that a load of a snapshot has replaced, the saved snapshots and
the open transactions.  A transaction works on the storage it was started on for as long as it lives, so that a load
takes nothing away from it and it puts nothing into the state that was loaded.
-/
namespace EntityStore

variable {X : Scalars} {κ : Type} [DecidableEq κ]

/-- A multi-version store with its transactions. -/
structure Repository (C : κ → EntityType X) where
  /-- The storages that were replaced, the first one first. -/
  retired : List (Storage C) := []
  current : Storage C := {}
  snapshots : Dict X.uuid (Storage C) := {}
  transactions : Dict TxId (Transaction C) := {}
  /-- The number of the last transaction. -/
  lastTx : Nat := 0

namespace Repository

variable {C : κ → EntityType X}

instance : Inhabited (Repository C) := ⟨{}⟩

/-- The storage in place `home`: a retired one or the current one. -/
def storage (r : Repository C) (home : Nat) : Storage C := (r.retired[home]?).getD r.current

def setStorage (r : Repository C) (home : Nat) (storage : Storage C) : Repository C :=
  if home < r.retired.length then { r with retired := r.retired.set home storage } else { r with current := storage }

/-- Starts a transaction on the current storage. -/
def start (r : Repository C) (options : TxOptions) : TxId × Repository C :=
  let id := r.lastTx + 1
  let tx : Transaction C := { id, home := r.retired.length, options }
  (id, { r with lastTx := id, transactions := r.transactions.insert id tx })

def transaction? (r : Repository C) (id : TxId) : Option (Transaction C) := r.transactions.get? id

/-- A transaction together with its storage. -/
def session? (r : Repository C) (id : TxId) : Option (Session C) :=
  (r.transaction? id).map (fun tx => { tx, storage := r.storage tx.home })

/-- Takes back the transaction and the storage of a session. -/
def putSession (r : Repository C) (s : Session C) : Repository C :=
  { r with transactions := r.transactions.insert s.tx.id s.tx }.setStorage s.tx.home s.storage

/-- Lets a transaction do something. -/
def onSession {α : Type} (r : Repository C) (id : TxId) (f : Session C → Except Error α × Session C) :
    Except Error α × Repository C :=
  match r.session? id with
  | none => (.error (StoreError.noSuchTransaction id).toError, r)
  | some s =>
    let (result, s) := f s
    (result, r.putSession s)

/-- Runs code on the tables of a transaction. -/
def work {α : Type} (r : Repository C) (id : TxId) (w : Work C α) : Except Error α × Repository C :=
  r.onSession id w.run

/-- Changes the log of a transaction. -/
def record (r : Repository C) (id : TxId) (f : TxLog → TxLog) : Repository C :=
  (r.onSession id (fun s => (.ok (), { s with tx := { s.tx with log := f s.tx.log } }))).2

def commit (r : Repository C) (id : TxId) : Except Error Unit × Repository C := r.onSession id Session.commit

def rollback (r : Repository C) (id : TxId) : Except Error Unit × Repository C := r.onSession id Session.rollback

/-- Forgets a transaction; what it has not published is discarded. -/
def release (r : Repository C) (id : TxId) : Repository C :=
  match r.session? id with
  | none => r
  | some s =>
    let r := r.putSession s.release
    { r with transactions := r.transactions.erase id }

/-- Runs code in a transaction of its own: published if the code and the commit succeed, released in any case. -/
def aside {α : Type} (r : Repository C) (w : Work C α) : Except Error α × Repository C :=
  let (id, r) := r.start {}
  match r.work id w with
  | (.error e, r) => (.error e, r.release id)
  | (.ok a, r) =>
    let (result, r) := r.commit id
    (result.map (fun _ => a), r.release id)

/-- The number of versions published in the current storage. -/
def version (r : Repository C) : Nat := r.current.version

/-- The names of the tables in the current storage, sorted. -/
def tables (r : Repository C) : List String := r.current.tables

/-- Saves the published state under an identifier that was drawn for it. -/
def makeSnapshot (r : Repository C) (id : X.uuid) : Repository C :=
  { r with snapshots := r.snapshots.insert id r.current.settled }

/-- Makes a copy of a snapshot the current storage. -/
def loadSnapshot (r : Repository C) (id : X.uuid) : Except StoreError (Repository C) :=
  match r.snapshots.get? id with
  | none => .error (.snapshotNotFound (X.uuid.text id))
  | some saved => .ok { r with retired := r.retired ++ [r.current], current := saved.settled }

/-- Forgets a snapshot. -/
def dropSnapshot (r : Repository C) (id : X.uuid) : Except StoreError (Repository C) :=
  if r.snapshots.contains id then .ok { r with snapshots := r.snapshots.erase id }
  else .error (.snapshotNotFound (X.uuid.text id))

def text (r : Repository C) : String :=
  s!"MemoryRepository \x7b version: {r.version}, snapshots: {r.snapshots.size} \x7d"

end Repository

end EntityStore
