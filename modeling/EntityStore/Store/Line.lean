import EntityStore.Dict
import EntityStore.Store.StoreError
/-!
# The history of one row

A line keeps every published version of a row, newest first, and for each open transaction at most one draft.  A
reader sees its own draft if it has one, and otherwise the newest version that is not younger than its snapshot;
`none` as a version or draft is a deletion.
-/
namespace EntityStore

/-- The versions and drafts of one row. -/
structure Line (ρ : Type) where
  versions : List (Nat × Option ρ) := []
  drafts : Dict TxId (Option ρ) := {}

namespace Line

variable {ρ : Type}

/-- The row as published by version `v`. -/
def published (l : Line ρ) (v : Nat) : Option ρ := (l.versions.find? (fun p => p.1 ≤ v)).bind Prod.snd

/-- The row that transaction `tx` sees with the snapshot `v`. -/
def read (l : Line ρ) (tx : TxId) (v : Nat) : Option ρ := (l.drafts.get? tx).getD (l.published v)

def draft (l : Line ρ) (tx : TxId) (row : Option ρ) : Line ρ := { l with drafts := l.drafts.insert tx row }

/-- Publishes the draft of a transaction, if it has one, as version `v`. -/
def publish (l : Line ρ) (tx : TxId) (v : Nat) : Line ρ :=
  match l.drafts.get? tx with
  | none => l
  | some row => { versions := (v, row) :: l.versions, drafts := l.drafts.erase tx }

def discard (l : Line ρ) (tx : TxId) : Line ρ := { l with drafts := l.drafts.erase tx }

/-- Whether a version has come after `v`. -/
def hasYounger (l : Line ρ) (v : Nat) : Bool :=
  match l.versions with
  | [] => false
  | newest :: _ => v < newest.1

/-- The versions without the drafts. -/
def settled (l : Line ρ) : Line ρ := { l with drafts := {} }

end Line

end EntityStore
