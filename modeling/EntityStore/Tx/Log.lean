import EntityStore.Text.Timing
import EntityStore.Tx.Options
/-!
# The log of an attempt

Messages are kept in order and reported as one block when the attempt ends.  Each is led by its time since the
beginning.  No clock runs here, so that all times are zero.
-/
namespace EntityStore

/-- The messages of one attempt. -/
structure TxLog where
  level : LogLevel
  messages : List String := []
deriving DecidableEq

namespace TxLog

def record (log : TxLog) (at_ : LogLevel) (message : String) : TxLog :=
  if log.level.accepts at_ then { log with messages := log.messages ++ [Timing.stamp 0 ++ message] } else log

/-- Records a message about one statement. -/
def debug (log : TxLog) (message : String) : TxLog := log.record .debug message

/-- Records a summary. -/
def info (log : TxLog) (message : String) : TxLog := log.record .info message

def isEmpty (log : TxLog) : Bool := log.messages.isEmpty

/-- Every message on a line of its own, each led by `lead`. -/
def format (log : TxLog) (lead : String) : String :=
  "\n".intercalate (log.messages.map (lead ++ ·))

/-- The formatted log on lines below a message; nothing for an empty log. -/
def formatBelow (log : TxLog) (lead : String) : String :=
  if log.isEmpty then "" else "\n" ++ log.format lead

end TxLog

end EntityStore
