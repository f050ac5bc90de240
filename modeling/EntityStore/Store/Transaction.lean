import EntityStore.Cache
import EntityStore.Store.Storage
import EntityStore.Tx.Log
/-!
# Store transactions

A transaction reads the snapshot that its first statement fixes, plus its own applied writes.  Writes are queued
until commit, or applied at once if the options say so.  A `Session` is a transaction together with the storage it
works on; every statement is a function from sessions to an answer and a session.

Three rules hold throughout.  A closed transaction refuses statements and logs nothing.  Once a transaction has
applied a write, every read of an existing table first checks the locks on that table, and a conflict there
invalidates the transaction for good.  A commit applies the queue in order, checks the locks and publishes; on any
failure it discards, and closes the transaction all the same.
-/
namespace EntityStore

variable {X : Scalars} {κ : Type} [DecidableEq κ]

/-- A write in the queue, with the words that log it. -/
structure Pending (C : κ → EntityType X) where
  action : String
  kind : κ
  write : Write (C kind)

/-- A transaction of a repository. -/
structure Transaction (C : κ → EntityType X) where
  id : TxId
  /-- The storage it was started on, by its place in the repository. -/
  home : Nat
  options : TxOptions
  caches : KindMap κ (fun k => Cache (C k)) := {}
  log : TxLog := { level := options.logLevel }
  locks : Locks X κ := {}
  pending : List (Pending C) := []
  /-- The version it reads, once the first statement has run. -/
  snapshot : Option Nat := none
  /-- Whether one of its writes has been applied. -/
  hasWritten : Bool := false
  invalidated : Bool := false
  closedBy : Option Closing := none

/-- A transaction and the storage it works on. -/
structure Session (C : κ → EntityType X) where
  tx : Transaction C
  storage : Storage C

/-- The text of an answer without content. -/
def doneText (_ : Unit) : String := "done"

namespace Transaction

variable {C : κ → EntityType X}

/-- The cache of a table; an empty one until the table is opened. -/
def cache (t : Transaction C) (k : κ) : Cache (C k) :=
  (t.caches.get? k).getD { enabled := t.options.cache }

def setCache (t : Transaction C) (k : κ) (c : Cache (C k)) : Transaction C :=
  { t with caches := t.caches.set k c }

def ensureActive (t : Transaction C) : Except StoreError Unit :=
  match t.closedBy with
  | some closing => .error (.closed closing)
  | none => .ok ()

def ensureMutable (t : Transaction C) : Except StoreError Unit :=
  if t.options.isScan then .error .mutationInScan
  else if t.options.isReadOnly then .error (.mutationInReadOnly t.options.isolation)
  else .ok ()

/-- Fails if a scan has more rows than allowed. -/
def checkScanSize (t : Transaction C) (table : String) (rows : Nat) : Except StoreError Unit :=
  match t.options.scan with
  | some limits => if limits.maxSize < rows then .error (.scanTooLarge table limits.maxSize) else .ok ()
  | none => .ok ()

/-- What the transaction keeps for its attempt, in one line. -/
def localText (t : Transaction C) : String :=
  s!"TransactionLocal \x7b first_level_cache: {t.options.cache}, caches: {t.caches.size}, .. \x7d"

/-- Whether a commit was called on it while it was open. -/
def commitAttempted (t : Transaction C) : Bool := t.closedBy = some .commit

end Transaction

namespace Session

variable {C : κ → EntityType X}

/-- The version that the transaction reads. -/
def version (s : Session C) : Nat := s.tx.snapshot.getD s.storage.version

/-- Fixes the snapshot, if no statement has done so before. -/
def pin (s : Session C) : Session C := { s with tx := { s.tx with snapshot := some s.version } }

def logDebug (s : Session C) (message : String) : Session C := { s with tx := { s.tx with log := s.tx.log.debug message } }

def logInfo (s : Session C) (message : String) : Session C := { s with tx := { s.tx with log := s.tx.log.info message } }

/-- Logs a statement with its outcome. -/
def logStatement {α : Type} (s : Session C) (action : String) (summary : α → String) : Except Error α → Session C
  | .ok a => s.logDebug (Timing.ofStatement 0 ++ s!"{action} -> {summary a}")
  | .error e => s.logDebug (Timing.ofStatement 0 ++ s!"{action} => {e.message}")

def lockRow (s : Session C) (k : κ) (cells : Cells X) : Session C :=
  { s with tx := { s.tx with locks := s.tx.locks.lockRow k cells } }

def lockScan (s : Session C) (k : κ) (scan : Scan X) : Session C :=
  { s with tx := { s.tx with locks := s.tx.locks.lockScan k scan } }

def setCache (s : Session C) (k : κ) (c : Cache (C k)) : Session C := { s with tx := s.tx.setCache k c }

/-- The conflict that a read of the table meets, if any. -/
def conflict? (s : Session C) (k : κ) : Option StoreError :=
  match s.tx.hasWritten, s.storage.shard? k with
  | true, some shard =>
    match shard.checkLocks s.version (s.tx.locks.on k) with
    | .error e => some e
    | .ok () => none
  | _, _ => none

/-- Runs a read against the rows that the transaction sees in a table. -/
def read {α : Type} (s : Session C) (k : κ) (action : String) (summary : α → String)
    (f : Option (Shard (C k)) → Nat → Except Error α) : Except Error α × Session C :=
  match s.tx.ensureActive with
  | .error e => (.error e.toError, s)
  | .ok () =>
    let s := s.pin
    match s.conflict? k with
    | some e =>
      (.error e.toError,
        { s with tx := { s.tx with invalidated := true } }.logStatement action summary (.error e.toError))
    | none =>
      let result := f (s.storage.shard? k) s.version
      (result, s.logStatement action summary result)

/-- Applies a write to the storage. -/
def apply (s : Session C) (action : String) (k : κ) (w : Write (C k)) : Except Error Unit × Session C :=
  let s := s.pin
  let (result, storage) := s.storage.write s.tx.id s.version k w
  let s := { s with storage }
  match result with
  | .ok () => (.ok (), { s with tx := { s.tx with hasWritten := true } }.logStatement action doneText (.ok ()))
  | .error e => (.error e, s.logStatement action doneText (.error e))

/-- Applies a write or queues it, as the options say. -/
def write (s : Session C) (action : String) (k : κ) (w : Write (C k)) : Except Error Unit × Session C :=
  match s.tx.ensureActive with
  | .error e => (.error e.toError, s)
  | .ok () =>
    match s.tx.ensureMutable with
    | .error e => (.error e.toError, s)
    | .ok () =>
      if s.tx.options.isImmediate then s.apply action k w
      else (.ok (), { s with tx := { s.tx with pending := s.tx.pending ++ [⟨action, k, w⟩] } })

/-- Applies queued writes in order, up to the first failure. -/
def applyAll (s : Session C) : List (Pending C) → Except Error Unit × Session C
  | [] => (.ok (), s)
  | p :: rest =>
    match s.apply p.action p.kind p.write with
    | (.error e, s) => (.error e, s)
    | (.ok (), s) => s.applyAll rest

/-- Takes back every applied write. -/
def discard (s : Session C) : Session C := { s with storage := s.storage.rollback s.tx.id }

/-- Applies the queue, checks the locks and publishes; discards on failure. -/
def commitWrites (s : Session C) : Except Error Unit × Session C :=
  let queue := s.tx.pending
  match { s with tx := { s.tx with pending := [] } }.applyAll queue with
  | (.error e, s) => (.error e, s.discard)
  | (.ok (), s) =>
    let s := s.pin
    match s.storage.commit s.tx.id s.version s.tx.locks with
    | .error e => (.error e.toError, s.discard)
    | .ok storage => (.ok (), { s with storage })

/-- Empties the queue and takes back every applied write. -/
def rollbackWrites (s : Session C) : Except Error Unit × Session C :=
  (.ok (), { s with tx := { s.tx with pending := [] } }.discard)

/-- Ends the transaction.  One that may not write has nothing to finish and only says so. -/
def close (s : Session C) (closing : Closing) (finish : Session C → Except Error Unit × Session C) :
    Except Error Unit × Session C :=
  match s.tx.ensureActive with
  | .error e => (.error e.toError, s)
  | .ok () =>
    let (result, s) :=
      if s.tx.options.isScan then (.ok (), s.logInfo s!"No-op {closing.text}: scan tx")
      else if s.tx.options.isReadOnly then
        (.ok (), s.logInfo s!"No-op {closing.text}: read-only tx @{s.tx.options.isolation.text}")
      else
        let (result, s) := finish s
        (result, s.logStatement closing.text doneText result)
    (result, { s with tx := { s.tx with closedBy := some closing } }.logInfo
      (Timing.ofTransaction 0 ++ " TOTAL (since tx start)"))

/-- Publishes the writes.  An invalidated transaction cannot commit, and stays open. -/
def commit (s : Session C) : Except Error Unit × Session C :=
  if s.tx.invalidated then (.error StoreError.invalidated.toError, s)
  else s.close .commit commitWrites

def rollback (s : Session C) : Except Error Unit × Session C := s.close .rollback rollbackWrites

/-- Lets go of the transaction; what it has not published is discarded. -/
def release (s : Session C) : Session C := if s.tx.closedBy.isNone then s.discard else s

end Session

end EntityStore
