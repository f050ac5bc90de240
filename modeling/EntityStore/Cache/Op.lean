import EntityStore.Cache
/-!
# Steps on a cache

The operations of a cache as data, each with the type of its answer, so that a history of them can be written down
and run.
-/
namespace EntityStore

variable {X : Scalars}

/-- An operation on the cache of an entity type. -/
inductive CacheOp (E : EntityType X) where
  | lookup (id : E.Id)
  | contains (id : E.Id)
  | peek (id : E.Id)
  | getOrLoad (id : E.Id) (load : Except Error (Option E.Entity))
  | put (e : E.Entity)
  | putEmpty (id : E.Id)
  | putTombstone (id : E.Id)
  | snapshot
  | size

namespace CacheOp

variable {E : EntityType X}

/-- What an operation answers. -/
def Answer : CacheOp E → Type
  | .lookup _ => Option (Slot E.Entity)
  | .contains _ => Bool
  | .peek _ => Option E.Entity
  | .getOrLoad _ _ => Option E.Entity × Bool
  | .put _ => Unit
  | .putEmpty _ => Unit
  | .putTombstone _ => Unit
  | .snapshot => List E.Entity
  | .size => Nat × Bool

/-- Runs an operation.  `getOrLoad` also tells whether it had to load, and `size` whether the cache is enabled. -/
def run (op : CacheOp E) (c : Cache E) : Except Error op.Answer × Cache E :=
  match op with
  | .lookup id => (.ok (c.lookup id), c)
  | .contains id => (.ok (c.contains id), c)
  | .peek id => (c.peek id, c)
  | .getOrLoad id load =>
    let (answer, c') := c.getOrLoad id load
    (answer.map (fun e => (e, !c.contains id)), c')
  | .put e => (.ok (), c.put e)
  | .putEmpty id => (.ok (), c.putEmpty id)
  | .putTombstone id => (.ok (), c.putTombstone id)
  | .snapshot => (c.snapshot, c)
  | .size => (.ok (c.size, c.enabled), c)

end CacheOp

end EntityStore
