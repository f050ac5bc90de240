import EntityStore.Backoff
/-!
# Errors

Every error belongs to one `ErrorKind`, and what a transaction manager does about an error hangs on the kind
alone.  `rethrow` and `failImmediately` are the two ways in which an error that might have been retried becomes
final; the error that was given up stays inside as the source.
-/
namespace EntityStore

/-- What an error means for another attempt. -/
inductive ErrorKind where
  /-- A passing failure; the whole transaction may be run again. -/
  | retryable
  /-- The outcome is unknown; the transaction's options say whether to run it again. -/
  | conditionallyRetryable
  /-- Somebody else changed the data; outranks a business error of the same attempt. -/
  | optimisticLock
  /-- The caller was asked to stop. -/
  | interrupted
  /-- Anything else. -/
  | fatal
deriving DecidableEq

namespace ErrorKind

def isRetryable : ErrorKind → Bool
  | .retryable | .conditionallyRetryable | .optimisticLock => true
  | .interrupted | .fatal => false

def name : ErrorKind → String
  | .retryable => "Retryable"
  | .conditionallyRetryable => "ConditionallyRetryable"
  | .optimisticLock => "OptimisticLock"
  | .interrupted => "Interrupted"
  | .fatal => "Fatal"

end ErrorKind

/-- An error raised by the code that runs in a transaction, for reasons of its own. -/
inductive BusinessError where
  | insufficientFunds (balance amount : Int)
  | other (text : String)
deriving DecidableEq

def BusinessError.text : BusinessError → String
  | .insufficientFunds balance amount => s!"insufficient funds: balance {balance}, requested {amount}"
  | .other text => text

/-- What can go wrong in an operation. -/
inductive Error where
  | optimisticLock (message : String)
  | retryable (reason message : String) (policy : Backoff)
  | conditionallyRetryable (reason message : String) (policy : Backoff)
  | unavailable (message : String) (alreadyRetried : Bool) (source : Error)
  | interrupted (message : String)
  | entityAlreadyExists (id : String)
  | invalidRange (message : String)
  | invalidSchema (typeName message : String)
  | invalidArgument (message : String)
  | invalidOperation (message : String)
  | nestedTransaction (name : String)
  | business (cause : BusinessError)
deriving DecidableEq

namespace Error

/-- The name of the error's case. -/
def caseName : Error → String
  | .optimisticLock _ => "OptimisticLock"
  | .retryable _ _ _ => "Retryable"
  | .conditionallyRetryable _ _ _ => "ConditionallyRetryable"
  | .unavailable _ _ _ => "Unavailable"
  | .interrupted _ => "Interrupted"
  | .entityAlreadyExists _ => "EntityAlreadyExists"
  | .invalidRange _ => "InvalidRange"
  | .invalidSchema _ _ => "InvalidSchema"
  | .invalidArgument _ => "InvalidArgument"
  | .invalidOperation _ => "InvalidOperation"
  | .nestedTransaction _ => "NestedTransaction"
  | .business _ => "Business"

def message : Error → String
  | .optimisticLock m => s!"optimistic lock failed: {m}"
  | .retryable reason m _ => s!"retryable failure [{reason}]: {m}"
  | .conditionallyRetryable reason m _ => s!"conditionally retryable failure [{reason}]: {m}"
  | .unavailable m _ source => s!"{m}: {source.message}"
  | .interrupted m => s!"interrupted: {m}"
  | .entityAlreadyExists id => s!"entity already exists: {id}"
  | .invalidRange m => s!"invalid range: {m}"
  | .invalidSchema typeName m => s!"invalid id schema for {typeName}: {m}"
  | .invalidArgument m => s!"invalid argument: {m}"
  | .invalidOperation m => s!"invalid operation: {m}"
  | .nestedTransaction name => s!"transaction {name} was run when another transaction is active"
  | .business cause => cause.text

def kind : Error → ErrorKind
  | .optimisticLock _ => .optimisticLock
  | .retryable _ _ _ => .retryable
  | .conditionallyRetryable _ _ _ => .conditionallyRetryable
  | .interrupted _ => .interrupted
  | _ => .fatal

def isRetryable (e : Error) : Bool := e.kind.isRetryable

/-- How long to wait before another attempt, for an error that allows one. -/
def backoff? : Error → Option Backoff
  | .optimisticLock _ => some .immediate
  | .retryable _ _ policy | .conditionallyRetryable _ _ policy => some policy
  | _ => none

/-- The name under which statistics count the error. -/
def reason : Error → String
  | .optimisticLock _ => "OptimisticLock"
  | .retryable reason _ _ | .conditionallyRetryable reason _ _ => reason
  | .interrupted _ => "Interrupted"
  | _ => "Fatal"

/-- What the last of several failed attempts is reported as; an error that allows no retry stays as it is. -/
def rethrow (e : Error) : Error :=
  match e.kind with
  | .conditionallyRetryable => .unavailable "Conditional retries failed" true e
  | .retryable | .optimisticLock => .unavailable "Retries failed" true e
  | .interrupted | .fatal => e

/-- What an error is reported as whose unknown outcome forbids another attempt. -/
def failImmediately (e : Error) : Error := .unavailable "Conditional retries not attempted" false e

def business? : Error → Option BusinessError
  | .business cause => some cause
  | _ => none

theorem isSome_backoff? (e : Error) : e.backoff?.isSome = e.isRetryable := by cases e <;> rfl

end Error

end EntityStore
