import EntityStore.Store.Faulty
import EntityStore.Tx.Attempt
import EntityStore.Tx.Manager
import EntityStore.Tx.Stats
/-!
# What calls share

All calls of a program work on one `Shared` state: the repository, the cancellation flags, the statistics, how many
attempts are under way, the calls that are running, the events reported so far, and a journal in which the code of
transactions leaves notes of its own.

What happens during the waits of calls is an input: `waits` tells it of the next ones.  After a wait without end nothing
takes place any more.  That is marked (`hung`), and what is computed from there on means nothing.
-/
namespace EntityStore

variable {X : Scalars} {κ : Type} [DecidableEq κ]

/-- The state that all calls share; notes in the journal are values of type `V`. -/
structure Shared (C : κ → EntityType X) (V : Type) where
  store : FaultyRepository C := {}
  tokens : TokenPool := {}
  /-- What happens during the next waits; further ones end with their time. -/
  waits : List Meanwhile := []
  /-- Whether a wait has begun that never ends. -/
  hung : Bool := false
  stats : TxStats := {}
  /-- How many attempts are under way, one inside the other. -/
  active : Nat := 0
  /-- The calls that are running, the innermost first. -/
  spans : List Span := []
  /-- The number of the last call. -/
  lastSpan : Nat := 0
  events : List Event := []
  journal : List V := []

namespace Shared

variable {C : κ → EntityType X} {V : Type} (s : Shared C V)

/-- Whether the code of a transaction is running. -/
def inTransaction : Bool := 0 < s.active

/-- An attempt begins. -/
def enter : Shared C V := { s with active := s.active + 1 }

/-- An attempt has ended. -/
def leave : Shared C V := { s with active := s.active - 1 }

/-- Reports an event of the innermost call. -/
def report (severity : Severity) (message : String) (fields : List (String × String)) : Shared C V :=
  { s with events := s.events ++ [{ severity, message, fields, span := s.spans.head? }] }

/-- Leaves a note. -/
def note (v : V) : Shared C V := { s with journal := s.journal ++ [v] }

def mapStats (f : TxStats → TxStats) : Shared C V := { s with stats := f s.stats }

/-- A call begins. -/
def openSpan (isolation : Isolation) (logName : String) : Shared C V :=
  { s with
    lastSpan := s.lastSpan + 1
    spans := { number := s.lastSpan + 1, isolation, logName } :: s.spans }

/-- The innermost call has ended. -/
def closeSpan : Shared C V := { s with spans := s.spans.drop 1 }

/-- Waits on a token, as long as is said for a draw. -/
def sleep (t : Token) (delay : Float → Duration) : Except Error Unit × Shared C V :=
  let during := s.waits.headD {}
  let (wait, tokens) := s.tokens.sleep t during (delay during.draw)
  (wait.result, { s with tokens, waits := s.waits.drop 1, hung := s.hung || wait == .endless })

/-- Does something to the repository. -/
def onStore {α : Type} (f : FaultyRepository C → α × FaultyRepository C) : α × Shared C V :=
  let (result, store) := f s.store
  (result, { s with store })

/-- A transaction of the repository, as an attempt sees it. -/
def handle (tx : TxId) : TxHandle (Shared C V) where
  commit s := s.onStore (fun store => store.commit tx)
  rollback s := s.onStore (fun store => store.rollback tx)
  report severity message s := s.report severity message []
  logBelow lead s := (s.store.log tx).formatBelow lead

end Shared

end EntityStore
