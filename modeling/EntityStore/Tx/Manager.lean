import EntityStore.Cancellation
import EntityStore.Tx.Name
/-!
# Configuration of transactions

A `Manager` says how its calls run: with which options, under which name, after how many failures they give up, whose
token interrupts them, and what happens to a call that is made while another transaction is active.  It is a value;
each derivation changes a field, and calls of a manager and of those derived from it work on the same shared state.
-/
namespace EntityStore

/-- What happens to a call that is made while the code of another transaction runs. -/
inductive SeparatePolicy where
  /-- It runs by itself. -/
  | allow
  /-- It runs, with a warning. -/
  | log
  /-- It fails before its first attempt. -/
  | strict
deriving DecidableEq

/-- The policy's name in a configuration. -/
def SeparatePolicy.name : SeparatePolicy → String
  | .allow => "Allow"
  | .log => "Log"
  | .strict => "Strict"

/-- How calls run. -/
structure Manager where
  options : TxOptions := {}
  /-- How many attempts may follow the first one. -/
  retries : Nat := 99
  /-- The name of the transactions, if it is not taken from the place of the call. -/
  name : Option String := none
  logContext : Option String := none
  separatePolicy : SeparatePolicy := .log
  naming : Naming := .short
  token : Token
deriving DecidableEq

/-- How read-only transactions differ from what they are by themselves. -/
inductive ReadOnlyChange where
  | isolation (level : Isolation)
  | cache (enabled : Bool)
deriving DecidableEq

namespace Manager

variable (m : Manager)

/-- The manager with changed options. -/
def mapOptions (f : TxOptions → TxOptions) : Manager := { m with options := f m.options }

/-- The greatest number of attempts that a manager can be set to make. -/
def attemptLimit : Nat := 4294967295

/-- The manager that makes at most `retries` attempts after the first one. -/
def withRetries (retries : Nat) : Manager := { m with retries := min retries (attemptLimit - 1) }

/-- How many attempts a call makes at most. -/
def maxAttempts : Nat := m.retries + 1

/-- The names of a transaction that is called at `site`. -/
def nameAt (site : CallSite) : TxName :=
  (match m.name with
    | some name => TxName.plain name
    | none => m.naming.generate site).withContext m.logContext

/-- The manager of read-only transactions. -/
def readOnly : Manager := m.mapOptions (fun o => { o with isolation := .onlineConsistentReadOnly })

/-- The manager with a change for read-only transactions; a level must be one for reading. -/
def changeReadOnly : ReadOnlyChange → Except Error Manager
  | .isolation level =>
    if level.isReadOnly then .ok (m.mapOptions (fun o => { o with isolation := level }))
    else .error (.invalidArgument s!"isolation level must be read-only, got {level.text}")
  | .cache enabled => .ok (m.mapOptions (fun o => { o with cache := enabled }))

/-- The manager of read-only transactions with changes, up to the first that is refused. -/
def readOnlyWith (changes : List ReadOnlyChange) : Except Error Manager :=
  changes.foldlM changeReadOnly m.readOnly

/-- The manager of scans within limits.  Scans never use the cache. -/
def scan (limits : ScanLimits) : Manager := m.mapOptions (fun o => { o with scan := some limits, cache := false })

/-- The isolation level of the transactions; scans have none. -/
def isolation? : Option Isolation := if m.options.isScan then none else some m.options.isolation

end Manager

end EntityStore
