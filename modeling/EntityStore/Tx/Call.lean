import EntityStore.Tx.Retry
import EntityStore.Tx.Shared
/-!
# Calls

A call runs the code of a transaction under a manager: it makes attempts until one counts, runs the callbacks for
the end of the call that the last opened attempt has left, and lets go of that attempt's transaction.  A call that
the manager's policy rejects because another transaction is active does nothing at all.
-/
namespace EntityStore

variable {X : Scalars} {κ : Type} [DecidableEq κ]

/-- The attempt that code runs in. -/
structure Attempt where
  tx : TxId
  name : TxName

/-- A call between its attempts. -/
structure Call (C : κ → EntityType X) (V : Type) where
  shared : Shared C V
  /-- How often the code has been run. -/
  bodies : Nat := 0
  /-- The last transaction that was opened, with the callbacks it has left for the end. -/
  opened : Option (TxId × List (Shared C V → Shared C V)) := none

/-- The code of a transaction, as a function of how often it has been run. -/
abbrev Body (C : κ → EntityType X) (V α : Type) : Type := Nat → Attempt → Step α (Shared C V)

namespace Call

variable {C : κ → EntityType X} {V α : Type}

def mapShared (c : Call C V) (f : Shared C V → Shared C V) : Call C V := { c with shared := f c.shared }

/-- Lets go of the last transaction. -/
def releaseOpened (c : Call C V) : Call C V :=
  match c.opened with
  | none => c
  | some (tx, _) =>
    { c with shared := { c.shared with store := c.shared.store.release tx }, opened := none }

/-- Makes an attempt.  The transaction of the attempt before is let go of as soon as there is a new one. -/
def attempt (m : Manager) (name : TxName) (body : Body C V α) (c : Call C V) : (Except Error α × Bool) × Call C V :=
  match c.shared.onStore (fun store => store.start m.options) with
  | (.error e, shared) => ((.error e, false), { c with shared })
  | (.ok tx, shared) =>
    let c := { c with shared }.releaseOpened
    let ended := (Shared.handle tx).attempt m.options (body (c.bodies + 1) { tx, name }) c.shared.enter
    ((ended.result, ended.state.store.commitAttempted tx),
      { shared := ended.state.leave, bodies := c.bodies + 1, opened := some (tx, ended.atEnd) })

/-- The fields of an event about attempt number `n`. -/
def attemptFields (m : Manager) (n : Nat) (outcome : String) : List (String × String) :=
  [("attempt", toString n), ("isolation", m.options.isolation.text), ("outcome", outcome)]

/-- Counts and reports an attempt that has succeeded. -/
def noteSuccess (m : Manager) (n : Nat) (s : Shared C V) : Shared C V :=
  let outcome := if m.options.dryRun then "dry_run" else "commit"
  (s.mapStats (if m.options.dryRun then TxStats.recordDryRun else TxStats.recordCommit)).report .debug
    "transaction attempt finished" (attemptFields m n outcome)

/-- Counts and reports an attempt that has failed. -/
def noteFailure (m : Manager) (n : Nat) (verdict : Verdict) (e : Error) (s : Shared C V) : Shared C V :=
  match verdict with
  | .fatal =>
    (s.mapStats TxStats.recordRollback).report .debug s!"transaction attempt finished: {e.message}"
      (attemptFields m n "rollback")
  | .refused =>
    (s.mapStats TxStats.recordRollback).report .debug s!"conditional retry not allowed: {e.message}"
      (attemptFields m n "rollback")
  | .again =>
    (s.mapStats (fun stats => stats.recordRetry e.reason)).report .debug
      s!"transaction attempt finished: {e.message}" (attemptFields m n "retry" ++ [("reason", e.reason)])

/-- What the attempts of a call do to it. -/
def hooks (m : Manager) (name : TxName) (body : Body C V α) : RetryHooks α (Call C V) where
  attempt c :=
    let (ended, c) := c.attempt m name body
    (ended, c.mapShared (fun s => s.mapStats TxStats.recordAttempt))
  succeeded n c := c.mapShared (noteSuccess m n)
  failed n verdict e c := c.mapShared (noteFailure m n verdict e)
  sleep delay c :=
    let (waited, shared) := c.shared.sleep m.token delay
    (waited, { c with shared })
  interrupted n e c := c.mapShared fun s =>
    (s.mapStats TxStats.recordFail).report .warn s!"transaction retries interrupted: {e.message}"
      [("attempt", toString n)]
  exhausted n e c := c.mapShared fun s =>
    (s.mapStats TxStats.recordFail).report .warn s!"transaction retries failed: {e.message}"
      [("attempts", toString n)]

/-- Runs the callbacks for the end of the call, and lets go of the last transaction. -/
def finish (c : Call C V) : Shared C V :=
  let callbacks := ((c.opened.map Prod.snd).getD [])
  (c.mapShared (TxHandle.runCallbacks callbacks)).releaseOpened.shared

end Call

namespace Manager

variable {C : κ → EntityType X} {V α : Type}

/-- Makes a call, which the policy has let through. -/
def call (m : Manager) (name : TxName) (body : Body C V α) (s : Shared C V) : Except Error α × Shared C V :=
  let s := s.openSpan m.options.isolation name.logName
  let (result, c) := (Call.hooks m name body).run m.options m.retries { shared := s }
  (result, (c.finish.mapStats TxStats.recordCall).closeSpan)

/-- What a call is told that runs beside another transaction. -/
def besideWarning (name : TxName) : String :=
  s!"Transaction '{name.logName}' was run when another transaction is active. " ++
    "Perhaps unexpected behavior. Use TxManager::separate() to avoid this message"

/-- Runs code in a transaction. -/
def tx (m : Manager) (site : CallSite) (body : Body C V α) (s : Shared C V) : Except Error α × Shared C V :=
  let name := m.nameAt site
  if s.inTransaction then
    match m.separatePolicy with
    | .allow => m.call name body s
    | .log => m.call name body (s.report .warn (besideWarning name) [])
    | .strict => (.error (.nestedTransaction name.logName), s)
  else m.call name body s

end Manager

end EntityStore
