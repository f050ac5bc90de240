import EntityStore.Tx.Name
/-!
# Events

What the manager tells the outside world while it works.  An event carries the call it belongs to, which is the
innermost one that is running when the event is reported.
-/
namespace EntityStore

/-- How much an event matters. -/
inductive Severity where
  | debug
  | warn
deriving DecidableEq

def Severity.text : Severity → String
  | .debug => "DEBUG"
  | .warn => "WARN"

/-- One call of a manager, as its events show it. -/
structure Span where
  /-- The number behind the log identifier. -/
  number : Nat
  isolation : Isolation
  logName : String
deriving DecidableEq

/-- The log identifier of the call. -/
def Span.logId (s : Span) : String := EntityStore.logId s.number s.isolation

/-- Something that was reported. -/
structure Event where
  severity : Severity
  message : String
  fields : List (String × String) := []
  span : Option Span := none
deriving DecidableEq

end EntityStore
