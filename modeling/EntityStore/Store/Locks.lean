import EntityStore.Dict
import EntityStore.Identifier.Interval
/-!
# Read locks

A transaction locks what it reads, table by table: single rows, present or not, and scans, which cover every row
that would belong to the answer.  Locks are held by the reader alone and stop nobody; a commit compares them with
what others have published meanwhile.
-/
namespace EntityStore

variable {X : Scalars}

/-- A set of rows that was read as a whole. -/
inductive Scan (X : Scalars) where
  | interval (r : Interval X)
  /-- The rows that agree with the filled cells of a partial identifier. -/
  | agreeing (pattern : Cells X)
  | table

/-- Whether a key belongs to a scan.  A key that an interval cannot judge counts as covered. -/
def Scan.covers : Scan X → Cells X → Bool
  | .interval r, cells =>
    match r.containsCells cells with
    | .ok inside => inside
    | .error _ => true
  | .agreeing pattern, cells => Cells.agrees pattern cells
  | .table, _ => true

/-- The locks on one table. -/
structure TableLocks (X : Scalars) where
  rows : List (Cells X) := []
  scans : List (Scan X) := []

namespace TableLocks

def addRow (l : TableLocks X) (cells : Cells X) : TableLocks X :=
  if l.rows.contains cells then l else { l with rows := l.rows ++ [cells] }

def addScan (l : TableLocks X) (scan : Scan X) : TableLocks X := { l with scans := l.scans ++ [scan] }

end TableLocks

/-- The locks of a transaction. -/
structure Locks (X : Scalars) (κ : Type) where
  tables : Dict κ (TableLocks X) := {}

namespace Locks

variable {κ : Type} [DecidableEq κ]

/-- The locks on the table of kind `k`. -/
def on (l : Locks X κ) (k : κ) : TableLocks X := l.tables.getD k {}

def lockRow (l : Locks X κ) (k : κ) (cells : Cells X) : Locks X κ :=
  ⟨l.tables.insert k ((l.on k).addRow cells)⟩

def lockScan (l : Locks X κ) (k : κ) (scan : Scan X) : Locks X κ :=
  ⟨l.tables.insert k ((l.on k).addScan scan)⟩

theorem on_lockRow (l : Locks X κ) (k j : κ) (cells : Cells X) :
    (l.lockRow k cells).on j = if k = j then (l.on k).addRow cells else l.on j := by
  unfold lockRow on Dict.getD
  rw [Dict.get?_insert]
  split <;> simp_all

theorem on_lockScan (l : Locks X κ) (k j : κ) (scan : Scan X) :
    (l.lockScan k scan).on j = if k = j then (l.on k).addScan scan else l.on j := by
  unfold lockScan on Dict.getD
  rw [Dict.get?_insert]
  split <;> simp_all

end Locks

end EntityStore
