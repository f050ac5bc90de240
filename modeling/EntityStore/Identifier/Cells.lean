import EntityStore.Identifier.Value
/-!
# Flattened identifiers

An identifier in flat form is a row of cells, one for each field of its schema, some of them empty.  Rows have
two orders, defined apart: `Cells.compare` walks two rows side by side with empty cells first, and the order in
which a table keeps its rows is the lexicographic one that lists and options carry (`Ord Cells`).
-/
namespace EntityStore

variable {X : Scalars}

/-- One cell for each field of an identifier; an empty cell is `none`. -/
abbrev Cells (X : Scalars) := List (Option (Value X))

namespace Cells

/-- Compares two cells, the empty one first. -/
def compareCell : Option (Value X) → Option (Value X) → Ordering
  | none, none => .eq
  | none, some _ => .lt
  | some _, none => .gt
  | some a, some b => a.compare b

/-- The canonical order of rows: cell by cell, and a row before its extensions. -/
def compare (a b : Cells X) : Ordering :=
  match (a.zip b).find? (fun p => compareCell p.1 p.2 ≠ .eq) with
  | some p => compareCell p.1 p.2
  | none => Ord.compare a.length b.length

/-- Whether a row agrees with every filled cell of `pattern`. -/
def agrees (pattern cells : Cells X) : Bool :=
  (pattern.zip cells).all fun p =>
    match p.1 with
    | none => true
    | some v => p.2 = some v

def isPartial (cells : Cells X) : Bool := cells.any Option.isNone

end Cells

end EntityStore
