import EntityStore.Entity
import EntityStore.Store.Line
import EntityStore.Store.Locks
/-!
# The rows of one table

A shard holds the lines of one entity type by key, in canonical order, and for each open transaction the keys it
has drafts under.  A deletion drafts nothing under a key that has no line.
-/
namespace EntityStore

variable {X : Scalars}

/-- The lines of one table. -/
structure Shard (E : EntityType X) where
  /-- In ascending order of keys. -/
  lines : List (Cells X × Line E.Entity) := []
  /-- The keys under which a transaction has drafts. -/
  touched : Dict TxId (List (Cells X)) := {}

namespace Shard

variable {E : EntityType X}

/-- The line of the first entry with the key. -/
def findLine {ρ : Type} (cells : Cells X) : List (Cells X × Line ρ) → Option (Line ρ)
  | [] => none
  | (key, line) :: rest => if key = cells then some line else findLine cells rest

/-- Changes the line under a key, or adds a changed empty one in its place. -/
def updateLine {ρ : Type} (cells : Cells X) (f : Line ρ → Line ρ) : List (Cells X × Line ρ) → List (Cells X × Line ρ)
  | [] => [(cells, f {})]
  | (key, line) :: rest =>
    match Ord.compare cells key with
    | .lt => (cells, f {}) :: (key, line) :: rest
    | .eq => (key, f line) :: rest
    | .gt => (key, line) :: updateLine cells f rest

def line? (s : Shard E) (cells : Cells X) : Option (Line E.Entity) := findLine cells s.lines

/-- The row that a transaction sees under a key. -/
def read (s : Shard E) (tx : TxId) (v : Nat) (cells : Cells X) : Option E.Entity :=
  (s.line? cells).bind (fun line => line.read tx v)

/-- The rows that a transaction sees, in canonical order. -/
def rows (s : Shard E) (tx : TxId) (v : Nat) : List (Cells X × E.Entity) :=
  s.lines.filterMap (fun p => (p.2.read tx v).map (fun row => (p.1, row)))

/-- The keys under which a transaction has drafts. -/
def draftKeys (s : Shard E) (tx : TxId) : List (Cells X) := s.touched.getD tx []

/-- Notes that a transaction has a draft under a key. -/
def touch (s : Shard E) (tx : TxId) (cells : Cells X) : Shard E :=
  if (s.draftKeys tx).contains cells then s
  else { s with touched := s.touched.insert tx (s.draftKeys tx ++ [cells]) }

def put (s : Shard E) (tx : TxId) (cells : Cells X) (row : E.Entity) : Shard E :=
  { s with lines := updateLine cells (fun line => line.draft tx (some row)) s.lines }.touch tx cells

def delete (s : Shard E) (tx : TxId) (cells : Cells X) : Shard E :=
  match s.line? cells with
  | none => s
  | some _ => { s with lines := updateLine cells (fun line => line.draft tx none) s.lines }.touch tx cells

/-- Whether the row under a key has a version younger than `v`. -/
def isStale (s : Shard E) (v : Nat) (cells : Cells X) : Bool := (s.line? cells).any (fun line => line.hasYounger v)

/-- Fails if a row or scan that was read at version `v` has changed since; rows come first. -/
def checkLocks (s : Shard E) (v : Nat) (locks : TableLocks X) : Except StoreError Unit :=
  match locks.rows.find? (s.isStale v) with
  | some cells => .error (.rowLockFailed (E.keyText cells))
  | none =>
    if s.lines.any (fun p => p.2.hasYounger v && locks.scans.any (fun scan => scan.covers p.1)) then
      .error (.tableLockFailed E.table)
    else .ok ()

/-- Changes the lines under which a transaction has drafts, and forgets that it has them. -/
def finish (s : Shard E) (tx : TxId) (f : Line E.Entity → Line E.Entity) : Shard E :=
  { lines := s.lines.map (fun p => if (s.draftKeys tx).contains p.1 then (p.1, f p.2) else p),
    touched := s.touched.erase tx }

/-- Publishes the drafts of a transaction as version `v`. -/
def publish (s : Shard E) (tx : TxId) (v : Nat) : Shard E := s.finish tx (fun line => line.publish tx v)

def discard (s : Shard E) (tx : TxId) : Shard E := s.finish tx (fun line => line.discard tx)

/-- The published versions alone. -/
def settled (s : Shard E) : Shard E := { lines := s.lines.map (fun p => (p.1, p.2.settled)) }

end Shard

end EntityStore
