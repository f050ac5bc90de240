import EntityStore.Tx.Options
import EntityStore.Error
/-!
# What a store refuses

The causes for which a store refuses a statement or a commit, their wording, and the errors that callers see:
lock conflicts are optimistic locks, an unknown snapshot is a wrong argument, and all else is misuse.
-/
namespace EntityStore

/-- The number of a transaction within its repository. -/
abbrev TxId := Nat

/-- How a transaction was closed. -/
inductive Closing where
  | commit
  | rollback
deriving DecidableEq

def Closing.text : Closing → String
  | .commit => "commit()"
  | .rollback => "rollback()"

/-- Why a store refuses. -/
inductive StoreError where
  /-- A row that was read has a younger version. -/
  | rowLockFailed (row : String)
  /-- A set of rows that was read has changed. -/
  | tableLockFailed (table : String)
  /-- A read has already met a conflict. -/
  | invalidated
  | closed (closing : Closing)
  | mutationInScan
  | mutationInReadOnly (level : Isolation)
  | scanTooLarge (table : String) (maxSize : Nat)
  | snapshotNotFound (id : String)
  | noSuchTransaction (id : TxId)
deriving DecidableEq

namespace StoreError

def message : StoreError → String
  | .rowLockFailed row => s!"Row lock failed {row}"
  | .tableLockFailed table => s!"Table lock failed {table}"
  | .invalidated => "Transaction was invalidated. Commit isn't possible"
  | .closed closing => s!"Transaction already closed by {closing.text}"
  | .mutationInScan => "Mutable operations are not allowed in scan transactions"
  | .mutationInReadOnly level => s!"Mutable operations are not allowed at isolation level {level.text}"
  | .scanTooLarge table maxSize => s!"scan of {table} returned more than {maxSize} rows"
  | .snapshotNotFound id => s!"snapshot {id} not found"
  | .noSuchTransaction id => s!"transaction {id} is not open"

def isLockConflict : StoreError → Bool
  | .rowLockFailed _ | .tableLockFailed _ => true
  | _ => false

/-- The error that a caller sees. -/
def toError (e : StoreError) : Error :=
  match e with
  | .rowLockFailed _ | .tableLockFailed _ => .optimisticLock e.message
  | .snapshotNotFound _ => .invalidArgument e.message
  | _ => .invalidOperation e.message

end StoreError

end EntityStore
