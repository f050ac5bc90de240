import EntityStore.Tx.Call
/-!
# Programs

A `Program` is code that uses transactions, as data: code of an attempt, which has the tables and the callbacks of
its transaction, or code outside, such as the callbacks after a commit.  A program may make calls of its own, to any
depth, and goes on as the answers tell.  `Program.denote` is its meaning; it is a recursion on the program, so every
program comes to an end.
-/
namespace EntityStore

variable {X : Scalars} {κ : Type} [DecidableEq κ]

/-- Where a program runs. -/
inductive Scope where
  /-- In an attempt, with a transaction. -/
  | attempt
  | outside
deriving DecidableEq

/-- What a program knows of where it runs. -/
@[reducible] def Scope.Context : Scope → Type
  | .attempt => Attempt
  | .outside => Unit

/-- What code can learn of its attempt. -/
structure AttemptView where
  name : TxName
  options : TxOptions
  log : TxLog
  commitAttempted : Bool

/-- Code that uses transactions; its results and notes are values of type `V`. -/
inductive Program (C : κ → EntityType X) (V : Type) : Scope → Type where
  | finish {p : Scope} (result : Except Error V) : Program C V p
  /-- Leaves a note in the journal. -/
  | note {p : Scope} (v : V) (next : Program C V p) : Program C V p
  /-- Asks whether the code of a transaction is running. -/
  | askActive {p : Scope} (next : Bool → Program C V p) : Program C V p
  | cancel {p : Scope} (token : Token) (next : Program C V p) : Program C V p
  | queueFaults {p : Scope} (faults : Faults) (next : Program C V p) : Program C V p
  /-- Makes a call. -/
  | call {p : Scope} (m : Manager) (site : CallSite) (body : Nat → Program C V .attempt)
      (next : Except Error V → Program C V p) : Program C V p
  /-- Runs code in a separate transaction, past all managers. -/
  | aside {p : Scope} (w : Work C V) (next : Except Error V → Program C V p) : Program C V p
  /-- Runs code on the tables of the transaction. -/
  | work (w : Work C V) (next : Except Error V → Program C V .attempt) : Program C V .attempt
  | inspect (next : AttemptView → Program C V .attempt) : Program C V .attempt
  /-- Logs a message. -/
  | record (level : LogLevel) (message : String) (next : Program C V .attempt) : Program C V .attempt
  /-- Commits the store transaction from within. -/
  | commit (next : Except Error Unit → Program C V .attempt) : Program C V .attempt
  /-- Rolls the store transaction back from within. -/
  | rollback (next : Except Error Unit → Program C V .attempt) : Program C V .attempt
  /-- Registers a callback that runs in the transaction, before the commit. -/
  | beforeCommit (callback next : Program C V .attempt) : Program C V .attempt
  /-- Registers a callback that runs after a commit. -/
  | afterCommit (callback : Program C V .outside) (next : Program C V .attempt) : Program C V .attempt
  /-- Registers a callback that runs at the end of the call. -/
  | atEnd (callback : Program C V .outside) (next : Program C V .attempt) : Program C V .attempt

namespace Outcome

variable {α σ : Type}

/-- The outcome with a callback before the commit in front of the others. -/
def beforeCommit (o : Outcome α σ (Rounds σ)) (callback : Step Unit σ) : Outcome α σ (Rounds σ) :=
  { o with rounds := (Rounds.round callback).append o.rounds }

/-- The outcome with a callback after the commit in front of the others. -/
def afterCommit (o : Outcome α σ (Rounds σ)) (callback : σ → σ) : Outcome α σ (Rounds σ) :=
  { o with later := { o.later with afterCommit := callback :: o.later.afterCommit } }

/-- The outcome with a callback for the end of the call in front of the others. -/
def atEnd (o : Outcome α σ (Rounds σ)) (callback : σ → σ) : Outcome α σ (Rounds σ) :=
  { o with later := { o.later with atEnd := callback :: o.later.atEnd } }

/-- The outcome without the value. -/
def dropValue {ρ : Type} (o : Outcome α σ ρ) : Outcome Unit σ ρ := ⟨o.result.map (fun _ => ()), o.state, o.later, o.rounds⟩

end Outcome

namespace Program

variable {C : κ → EntityType X} {V : Type}

/-- What an attempt shows of itself. -/
def view (a : Attempt) (s : Shared C V) : AttemptView where
  name := a.name
  options := ((s.store.inner.transaction? a.tx).map Transaction.options).getD {}
  log := s.store.log a.tx
  commitAttempted := s.store.commitAttempted a.tx

/-- The log with a message. -/
def recorded (level : LogLevel) (message : String) (log : TxLog) : TxLog :=
  match level with
  | .debug => log.debug message
  | .info => log.info message
  | .off => log

/-- The meaning of a program. -/
def denote {p : Scope} : Program C V p → p.Context → Step V (Shared C V)
  | .finish result, _, s => { result, state := s, rounds := .done }
  | .note v next, c, s => next.denote c (s.note v)
  | .askActive next, c, s => (next s.inTransaction).denote c s
  | .cancel token next, c, s => next.denote c { s with tokens := s.tokens.cancel token }
  | .queueFaults faults next, c, s => next.denote c { s with store := s.store.queue faults }
  | .call m site body next, c, s =>
    let (result, s) := m.tx site (fun n a => (body n).denote a) s
    (next result).denote c s
  | .aside w next, c, s =>
    let (result, s) := s.onStore (fun store => store.aside w)
    (next result).denote c s
  | .work w next, a, s =>
    let (result, s) := s.onStore (fun store => store.work a.tx w)
    (next result).denote a s
  | .inspect next, a, s => (next (view a s)).denote a s
  | .record level message next, a, s =>
    next.denote a { s with store := s.store.record a.tx (recorded level message) }
  | .commit next, a, s =>
    let (result, s) := s.onStore (fun store => store.commit a.tx)
    (next result).denote a s
  | .rollback next, a, s =>
    let (result, s) := s.onStore (fun store => store.rollback a.tx)
    (next result).denote a s
  | .beforeCommit callback next, a, s =>
    (next.denote a s).beforeCommit (fun s => (callback.denote a s).dropValue)
  | .afterCommit callback next, a, s => (next.denote a s).afterCommit (fun s => (callback.denote () s).state)
  | .atEnd callback next, a, s => (next.denote a s).atEnd (fun s => (callback.denote () s).state)
termination_by structural q => q

/-- Runs a program outside of any transaction. -/
def run (q : Program C V .outside) (s : Shared C V) : Except Error V × Shared C V :=
  let o := q.denote () s
  (o.result, o.state)

end Program

end EntityStore
