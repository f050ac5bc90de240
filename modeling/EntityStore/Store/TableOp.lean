import EntityStore.Cache.Op
import EntityStore.Store.Table
/-!
# Statements as data

A `TableOp` is a statement on one table of a transaction, and a `Work` is everything that code can do with the tables
of a transaction: it runs a statement and goes on as the answer tells, until it has a result.  Whatever holds for
every `Work` holds for all code that touches a store through tables alone.
-/
namespace EntityStore

variable {X : Scalars} {κ : Type} [DecidableEq κ] {C : κ → EntityType X}

/-- A statement on the table of kind `k`. -/
inductive TableOp (C : κ → EntityType X) where
  | find (k : κ) (id : (C k).Id)
  | findMany (k : κ) (ids : List (C k).Id)
  | findUncached (k : κ) (ids : List (C k).Id)
  | findRange (k : κ) (r : Interval X)
  | findAll (k : κ)
  | insert (k : κ) (e : (C k).Entity)
  | save (k : κ) (e : (C k).Entity)
  | delete (k : κ) (id : (C k).Id)
  | postLoad (k : κ) (row : (C k).Entity)
  /-- A step on the cache of the table. -/
  | cache (k : κ) (op : CacheOp (C k))

namespace TableOp

/-- The table that a statement is about. -/
def kind : TableOp C → κ
  | .find k _ | .findMany k _ | .findUncached k _ | .findRange k _ | .findAll k | .insert k _ | .save k _
  | .delete k _ | .postLoad k _ | .cache k _ => k

/-- What a statement answers. -/
def Answer : TableOp C → Type
  | .find k _ => Option (C k).Entity
  | .findMany k _ => List (C k).Entity
  | .findUncached k _ => List (C k).Entity
  | .findRange k _ => List (C k).Entity
  | .findAll k => List (C k).Entity
  | .insert k _ => (C k).Entity
  | .save k _ => (C k).Entity
  | .delete _ _ => Unit
  | .postLoad k _ => Option (C k).Entity
  | .cache _ op => op.Answer

/-- Runs a statement on a table that is open. -/
def runOpen (op : TableOp C) (s : Session C) : Except Error op.Answer × Session C :=
  match op with
  | .find k id => s.find k id
  | .findMany k ids => s.findMany k ids
  | .findUncached k ids => s.findUncached k ids
  | .findRange k r => s.findRange k r
  | .findAll k => s.findAll k
  | .insert k e => s.insert k e
  | .save k e => s.save k e
  | .delete k id => s.delete k id
  | .postLoad k row =>
    let (entity, s) := s.postLoad k row
    (.ok entity, s)
  | .cache k op =>
    let (answer, c) := op.run (s.tx.cache k)
    (answer, s.setCache k c)

/-- Opens the table and runs a statement on it. -/
def run (op : TableOp C) (s : Session C) : Except Error op.Answer × Session C := op.runOpen (s.openTable op.kind)

end TableOp

/-- Code that works on the tables of a transaction. -/
inductive Work (C : κ → EntityType X) (α : Type) where
  | done (result : Except Error α)
  /-- Opens a table without a statement. -/
  | opened (k : κ) (next : Work C α)
  | statement (op : TableOp C) (next : Except Error op.Answer → Work C α)

namespace Work

variable {α β : Type}

/-- Runs the code on a transaction. -/
def run : Work C α → Session C → Except Error α × Session C
  | .done result, s => (result, s)
  | .opened k next, s => next.run (s.openTable k)
  | .statement op next, s =>
    let (answer, s) := op.run s
    (next answer).run s

/-- A single statement, with what its answer comes to. -/
def ofOp (op : TableOp C) (f : op.Answer → α) : Work C α := .statement op (fun answer => .done (answer.map f))

/-- One piece of code after another, which is told the result of the first. -/
def andThen (w : Work C α) (next : Except Error α → Work C β) : Work C β :=
  match w with
  | .done result => next result
  | .opened k rest => .opened k (rest.andThen next)
  | .statement op rest => .statement op (fun answer => (rest answer).andThen next)

/-- Pieces of code one after another, up to the first failure. -/
def inSequence (a : α) : List (Work C α) → Work C α
  | [] => .done (.ok a)
  | w :: rest => w.andThen fun
    | .ok a => inSequence a rest
    | .error e => .done (.error e)

theorem run_andThen (w : Work C α) (next : Except Error α → Work C β) (s : Session C) :
    (w.andThen next).run s = (next (w.run s).1).run (w.run s).2 := by
  induction w generalizing s with
  | done result => rfl
  | opened k rest ih => exact ih _
  | statement op rest ih => exact ih _ _

end Work

end EntityStore
