import EntityStore.Text.Digits
import EntityStore.Text.FilePath
import EntityStore.Tx.Options
/-!
# Names of transactions

A transaction has a short name for statistics and a log name that may carry the line of the call and a context.
Where none is given, both are derived from the place of the call.  In logs a transaction is known by a number in
base 36 that ends in the mark of its isolation level.
-/
namespace EntityStore

/-- The names of a transaction. -/
structure TxName where
  name : String
  logName : String
deriving DecidableEq

namespace TxName

/-- A name that is its own log name. -/
def plain (name : String) : TxName := ⟨name, name⟩

/-- The log name followed by a context. -/
def withContext (n : TxName) : Option String → TxName
  | none => n
  | some context => { n with logName := n.logName ++ "/" ++ context }

end TxName

/-- Where a transaction is called from. -/
structure CallSite where
  file : String
  line : Nat

/-- How a name is derived from the place of the call. -/
inductive Naming where
  /-- The file's name without extension. -/
  | short
  /-- The file's path without extension. -/
  | long
  /-- The same name for all. -/
  | anonymous
deriving DecidableEq

namespace Naming

def all : List Naming := [.short, .long, .anonymous]

/-- The rule's name in a configuration. -/
def name : Naming → String
  | .short => "Short"
  | .long => "Long"
  | .anonymous => "Anonymous"

/-- The name of a transaction called at `site`. -/
def generate (naming : Naming) (site : CallSite) : TxName :=
  let lined (name : String) : TxName := ⟨name, s!"{name}:{site.line}"⟩
  match naming with
  | .anonymous => .plain "tx"
  | .short => lined ((FilePath.stem? site.file).getD site.file)
  | .long => lined ((FilePath.withoutExtension site.file).map (fun c => if c = '\\' then '/' else c))

end Naming

/-- The log identifier of transaction number `n`: at least six figures in base 36, then the mark of the level. -/
def logId (n : Nat) (isolation : Isolation) : String := Digits.text 36 6 n ++ isolation.suffix

end EntityStore
