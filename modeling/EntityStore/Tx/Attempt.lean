import EntityStore.Tx.Event
import EntityStore.Tx.Outcome
/-!
# One attempt

An attempt runs the code of a transaction once, runs the callbacks that wait for the commit, and then calls exactly
one of commit and rollback on the store transaction.  An error of the code leads to a rollback; an optimistic lock
that this rollback meets outranks the error, because the error may have come from inconsistent data.  A dry run is
always rolled back and keeps its value, unless the rollback tells that it read inconsistent data.
-/
namespace EntityStore

/-- The store transaction of an attempt, as the attempt sees it. -/
structure TxHandle (σ : Type) where
  commit : σ → Except Error Unit × σ
  rollback : σ → Except Error Unit × σ
  report : Severity → String → σ → σ
  /-- The log of the transaction for the lines below a message, each led by a mark. -/
  logBelow : String → σ → String

/-- How an attempt ends. -/
structure AttemptEnd (α σ : Type) where
  result : Except Error α
  state : σ
  /-- The callbacks for the end of the call. -/
  atEnd : List (σ → σ)

namespace TxHandle

variable {α σ : Type} (p : TxHandle σ)

/-- Reports what became of the attempt, with its log below. -/
def reportLog (message lead : String) (s : σ) : σ :=
  p.report .debug ("runInTx(): " ++ message ++ p.logBelow lead s) s

/-- Rolls back after an error, and tells which error counts. -/
def rollbackAfter (e : Error) (s : σ) : Error × σ :=
  match p.rollback (p.reportLog s!"Rollback due to {e.message}" "! " s) with
  | (.ok (), s) => (e, s)
  | (.error failure, s) =>
    if e.kind ≠ .interrupted ∧ failure.kind = .optimisticLock then
      (failure, p.report .debug s!"runInTx(): Rollback as inconsistent with business error {e.message}" s)
    else (e, p.report .warn s!"runInTx(): Rollback failed: {failure.message}" s)

/-- Rolls back a dry run. -/
def rollbackDryRun (s : σ) : Except Error Unit × σ :=
  match p.rollback s with
  | (.ok (), s) => (.ok (), p.reportLog "Rollback due to dry-run mode" "# " s)
  | (.error failure, s) =>
    if failure.kind = .optimisticLock then
      (.error failure,
        p.report .debug "runInTx(): Rollback because dry-run transaction read inconsistent data" s)
    else (.ok (), p.report .warn s!"runInTx(): Dry-run rollback failed: {failure.message}" s)

/-- Commits, and reports it. -/
def commitNow (logOnSuccess : Bool) (s : σ) : Except Error Unit × σ :=
  match p.commit s with
  | (.error e, s) => (.error e, p.reportLog s!"Commit failed due to {e.message}" "?! " s)
  | (.ok (), s) => (.ok (), if logOnSuccess then p.reportLog "Commit" "" s else s)

/-- Runs callbacks one after another. -/
def runCallbacks (callbacks : List (σ → σ)) (s : σ) : σ := callbacks.foldl (fun s callback => callback s) s

/-- Runs an attempt. -/
def attempt (o : TxOptions) (body : Step α σ) (s : σ) : AttemptEnd α σ :=
  let ran := body.runAll s
  match ran.result with
  | .error e =>
    let (e, s) := p.rollbackAfter e ran.state
    ⟨.error e, s, ran.later.atEnd⟩
  | .ok a =>
    if o.dryRun then
      let (result, s) := p.rollbackDryRun ran.state
      ⟨result.map (fun _ => a), s, ran.later.atEnd⟩
    else
      match p.commitNow o.logOnSuccess ran.state with
      | (.error e, s) => ⟨.error e, s, ran.later.atEnd⟩
      | (.ok (), s) => ⟨.ok a, runCallbacks ran.later.afterCommit s, ran.later.atEnd⟩

end TxHandle

end EntityStore
