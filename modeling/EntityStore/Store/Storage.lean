import EntityStore.KindMap
import EntityStore.Store.Shard
/-!
# The tables of a store

A storage holds one shard for each kind of entity that was ever written, and counts the versions it has published.
Reads take no part in the bookkeeping; a write makes the transaction one that has to be published or discarded, and
its table one that exists, even if nothing comes of the write.
-/
namespace EntityStore

variable {X : Scalars}

/-- What a write does under its key. -/
inductive Change (E : EntityType X) where
  /-- Fails if the transaction sees a row there. -/
  | insert (e : E.Entity)
  | save (e : E.Entity)
  | delete

/-- A write to one key of a table. -/
structure Write (E : EntityType X) where
  cells : Cells X
  change : Change E

/-- The change applied to the shard of its table. -/
def Write.applyTo {E : EntityType X} (w : Write E) (tx : TxId) (v : Nat) (shard : Shard E) :
    Except Error Unit × Shard E :=
  match w.change with
  | .insert e =>
    if (shard.read tx v w.cells).isSome then (.error (.entityAlreadyExists (E.idText (E.idOf e))), shard)
    else (.ok (), shard.put tx w.cells e)
  | .save e => (.ok (), shard.put tx w.cells e)
  | .delete => (.ok (), shard.delete tx w.cells)

variable {κ : Type} [DecidableEq κ]

/-- The tables of a store. -/
structure Storage (C : κ → EntityType X) where
  /-- The number of versions published. -/
  version : Nat := 0
  shards : KindMap κ (fun k => Shard (C k)) := {}
  /-- The tables that an open transaction has written to. -/
  touched : Dict TxId (List κ) := {}

namespace Storage

variable {C : κ → EntityType X}

instance : Inhabited (Storage C) := ⟨{}⟩

def shard? (s : Storage C) (k : κ) : Option (Shard (C k)) := s.shards.get? k

/-- The row that a transaction sees under a key. -/
def read (s : Storage C) (tx : TxId) (v : Nat) (k : κ) (cells : Cells X) : Option (C k).Entity :=
  (s.shard? k).bind (fun shard => shard.read tx v cells)

/-- The rows that a transaction sees in a table, in canonical order. -/
def rows (s : Storage C) (tx : TxId) (v : Nat) (k : κ) : List (Cells X × (C k).Entity) :=
  ((s.shard? k).map (fun shard => shard.rows tx v)).getD []

/-- The tables that a transaction has written to. -/
def writtenKinds (s : Storage C) (tx : TxId) : List κ := s.touched.getD tx []

/-- Notes that a transaction writes to a table. -/
def touch (s : Storage C) (tx : TxId) (k : κ) : Storage C :=
  if (s.writtenKinds tx).contains k then s
  else { s with touched := s.touched.insert tx (s.writtenKinds tx ++ [k]) }

/-- Applies a write to its table, which comes to exist. -/
def write (s : Storage C) (tx : TxId) (v : Nat) (k : κ) (w : Write (C k)) : Except Error Unit × Storage C :=
  let (result, shard) := w.applyTo tx v ((s.shard? k).getD {})
  (result, { s with shards := s.shards.set k shard }.touch tx k)

/-- Changes the shards of the given kinds. -/
def onKinds (f : (k : κ) → Shard (C k) → Shard (C k)) (shards : KindMap κ (fun k => Shard (C k))) :
    List κ → KindMap κ (fun k => Shard (C k))
  | [] => shards
  | k :: rest =>
    match shards.get? k with
    | none => onKinds f shards rest
    | some shard => onKinds f (shards.set k (f k shard)) rest

/-- Fails on the first table where something read at version `v` has changed since. -/
def checkLocks (s : Storage C) (v : Nat) (locks : Locks X κ) : List κ → Except StoreError Unit
  | [] => .ok ()
  | k :: rest =>
    match s.shard? k with
    | none => checkLocks s v locks rest
    | some shard =>
      match shard.checkLocks v (locks.on k) with
      | .error e => .error e
      | .ok () => checkLocks s v locks rest

/-- Publishes the writes of a transaction as a new version, if nothing it has read has changed.  A transaction that
has written nothing is through without a check. -/
def commit (s : Storage C) (tx : TxId) (v : Nat) (locks : Locks X κ) : Except StoreError (Storage C) :=
  if !s.touched.contains tx then .ok s
  else
    match s.checkLocks v locks s.shards.keys with
    | .error e => .error e
    | .ok () =>
      .ok { version := s.version + 1,
            shards := onKinds (fun _ shard => shard.publish tx (s.version + 1)) s.shards (s.writtenKinds tx),
            touched := s.touched.erase tx }

/-- Discards the drafts of a transaction. -/
def rollback (s : Storage C) (tx : TxId) : Storage C :=
  { s with
    shards := onKinds (fun _ shard => shard.discard tx) s.shards (s.writtenKinds tx),
    touched := s.touched.erase tx }

/-- The published state alone. -/
def settled (s : Storage C) : Storage C :=
  { version := s.version, shards := s.shards.map (fun _ shard => shard.settled) }

/-- The names of the tables that exist, sorted. -/
def tables (s : Storage C) : List String :=
  (s.shards.keys.map (fun k => (C k).table)).mergeSort (fun a b => Ord.compare a b ≠ .gt)

end Storage

end EntityStore
