import EntityStore.Store.Repository
/-!
# A repository that fails on demand

Failures are queued beforehand, each queue first in, first out.  A queued failure to start is met by the next start,
and by nothing else; a start that succeeds takes the next failure of a commit and the next failure of a rollback, if
there are any, for its transaction.  A commit that is made to fail rolls the transaction back, so that nothing is
published; a rollback that is made to fail has rolled back nevertheless.  Without queued failures the repository
behaves as the one inside.
-/
namespace EntityStore

variable {X : Scalars} {κ : Type} [DecidableEq κ]

/-- Failures for calls to come. -/
structure Faults where
  start : List Error := []
  commit : List Error := []
  rollback : List Error := []
deriving DecidableEq

/-- The failures of `f` and then those of `g`. -/
def Faults.append (f g : Faults) : Faults := ⟨f.start ++ g.start, f.commit ++ g.commit, f.rollback ++ g.rollback⟩

/-- How often a repository was called. -/
structure Calls where
  /-- Starts, those included that failed. -/
  started : Nat := 0
  commits : Nat := 0
  rollbacks : Nat := 0
deriving DecidableEq

/-- What is in store for a transaction. -/
structure Armed where
  commit : Option Error := none
  rollback : Option Error := none
  /-- Whether a commit has been tried. -/
  commitTried : Bool := false
deriving DecidableEq

/-- A repository with failures in store. -/
structure FaultyRepository (C : κ → EntityType X) where
  inner : Repository C := {}
  faults : Faults := {}
  calls : Calls := {}
  armed : Dict TxId Armed := {}

namespace FaultyRepository

variable {C : κ → EntityType X}

instance : Inhabited (FaultyRepository C) := ⟨{}⟩

def queue (r : FaultyRepository C) (faults : Faults) : FaultyRepository C :=
  { r with faults := r.faults.append faults }

/-- What is in store for a transaction. -/
def armedOf (r : FaultyRepository C) (id : TxId) : Armed := r.armed.getD id {}

def arm (r : FaultyRepository C) (id : TxId) (a : Armed) : FaultyRepository C :=
  { r with armed := r.armed.insert id a }

def start (r : FaultyRepository C) (options : TxOptions) : Except Error TxId × FaultyRepository C :=
  let r := { r with calls := { r.calls with started := r.calls.started + 1 } }
  match r.faults with
  | ⟨e :: rest, commits, rollbacks⟩ => (.error e, { r with faults := ⟨rest, commits, rollbacks⟩ })
  | ⟨[], commits, rollbacks⟩ =>
    let (id, inner) := r.inner.start options
    (.ok id, { r with inner, faults := ⟨[], commits.drop 1, rollbacks.drop 1⟩ }.arm id
      { commit := commits.head?, rollback := rollbacks.head? })

def commit (r : FaultyRepository C) (id : TxId) : Except Error Unit × FaultyRepository C :=
  let a := r.armedOf id
  let r := { r with calls := { r.calls with commits := r.calls.commits + 1 } }.arm id
    { a with commit := none, commitTried := true }
  match a.commit with
  | some e => (.error e, { r with inner := (r.inner.rollback id).2 })
  | none =>
    let (result, inner) := r.inner.commit id
    (result, { r with inner })

def rollback (r : FaultyRepository C) (id : TxId) : Except Error Unit × FaultyRepository C :=
  let r := { r with calls := { r.calls with rollbacks := r.calls.rollbacks + 1 } }
  match r.inner.rollback id with
  | (.error e, inner) => (.error e, { r with inner })
  | (.ok (), inner) =>
    let a := r.armedOf id
    let r := { r with inner }.arm id { a with rollback := none }
    match a.rollback with
    | some e => (.error e, r)
    | none => (.ok (), r)

/-- Whether a commit was called on the transaction. -/
def commitAttempted (r : FaultyRepository C) (id : TxId) : Bool :=
  (r.armedOf id).commitTried || (r.inner.transaction? id).any Transaction.commitAttempted

/-- Forgets a transaction; what it has not published is discarded. -/
def release (r : FaultyRepository C) (id : TxId) : FaultyRepository C :=
  { r with inner := r.inner.release id, armed := r.armed.erase id }

/-- Runs code on the tables of a transaction. -/
def work {α : Type} (r : FaultyRepository C) (id : TxId) (w : Work C α) : Except Error α × FaultyRepository C :=
  let (result, inner) := r.inner.work id w
  (result, { r with inner })

/-- Changes the log of a transaction. -/
def record (r : FaultyRepository C) (id : TxId) (f : TxLog → TxLog) : FaultyRepository C :=
  { r with inner := r.inner.record id f }

/-- The log of a transaction. -/
def log (r : FaultyRepository C) (id : TxId) : TxLog :=
  ((r.inner.transaction? id).map Transaction.log).getD { level := .off }

/-- Runs code in a transaction of the repository inside, which meets no failures. -/
def aside {α : Type} (r : FaultyRepository C) (w : Work C α) : Except Error α × FaultyRepository C :=
  let (result, inner) := r.inner.aside w
  (result, { r with inner })

end FaultyRepository

end EntityStore
