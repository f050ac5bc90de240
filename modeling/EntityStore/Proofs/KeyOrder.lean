import EntityStore.Identifier.Cells
/-!
# The order of keys

The order in which a table keeps its rows is total and tells keys apart: it is lawful for values (`Value.compare`),
and so for rows of cells, which carry it lexicographically.  It is the order that answers are sorted in
(`Cells.compare_eq`).
-/
namespace EntityStore

open Std

variable {X : Scalars}

namespace Value

theorem compare_of_kind_ne {a b : Value X} (h : a.kind ≠ b.kind) :
    a.compare b = Ord.compare a.kind.rank b.kind.rank := by
  cases a <;> cases b <;> first | exact absurd rfl h | rfl

theorem rank_injective {j k : Kind} (h : j.rank = k.rank) : j = k := by
  cases j <;> cases k <;> first | rfl | cases h

theorem rank_le_of_isLE {a b : Value X} (h : (a.compare b).isLE) : a.kind.rank ≤ b.kind.rank := by
  by_cases hk : a.kind = b.kind
  · exact Nat.le_of_eq (congrArg Kind.rank hk)
  · rw [compare_of_kind_ne hk] at h
    exact Nat.isLE_compare.1 h

theorem compare_swap (a b : Value X) : a.compare b = (b.compare a).swap := by
  cases a <;> cases b <;> first | rfl | exact OrientedOrd.eq_swap

/-- Values between two values of one kind are of that kind, so that the order within the kind decides. -/
theorem isLE_trans {a b c : Value X} (hab : (a.compare b).isLE) (hbc : (b.compare c).isLE) : (a.compare c).isLE := by
  have h₁ := rank_le_of_isLE hab
  have h₂ := rank_le_of_isLE hbc
  by_cases hac : a.kind = c.kind
  · have hb : a.kind = b.kind := rank_injective (Nat.le_antisymm h₁ (by rw [hac]; exact h₂))
    cases a <;> cases c <;> cases hac <;> cases b <;> cases hb <;> exact TransOrd.isLE_trans hab hbc
  · rw [compare_of_kind_ne hac]
    exact Nat.isLE_compare.2 (Nat.le_trans h₁ h₂)

theorem eq_of_compare_eq {a b : Value X} (h : a.compare b = .eq) : a = b := by
  by_cases hk : a.kind = b.kind
  · cases a <;> cases b <;> cases hk <;> exact congrArg _ (LawfulEqOrd.eq_of_compare h)
  · rw [compare_of_kind_ne hk] at h
    exact absurd (rank_injective (Nat.compare_eq_eq.1 h)) hk

instance : TransOrd (Value X) where
  eq_swap := compare_swap _ _
  isLE_trans := isLE_trans

instance : LawfulEqOrd (Value X) where
  eq_of_compare := eq_of_compare_eq

end Value

namespace Cells

theorem compareCell_eq (a b : Option (Value X)) : compareCell a b = Ord.compare a b := by cases a <;> cases b <;> rfl

theorem compare_eq : ∀ a b : Cells X, Cells.compare a b = Ord.compare a b
  | [], [] => rfl
  | [], _ :: _ => Nat.compare_eq_lt.2 (Nat.succ_pos _)
  | _ :: _, [] => Nat.compare_eq_gt.2 (Nat.succ_pos _)
  | x :: a, y :: b => by
    have hrest := compare_eq a b
    rw [List.compare_cons_cons, ← compareCell_eq, ← hrest]
    unfold Cells.compare
    rw [List.zip_cons_cons, List.find?_cons]
    cases hxy : compareCell x y with
    | eq =>
      have hlength : Ord.compare (x :: a).length (y :: b).length = Ord.compare a.length b.length := by
        simp only [List.length_cons, Nat.compare_eq_ite_lt, Nat.succ_lt_succ_iff]
      rw [hlength]
      rfl
    | lt => simp [hxy, Ordering.then]
    | gt => simp [hxy, Ordering.then]

end Cells

end EntityStore
