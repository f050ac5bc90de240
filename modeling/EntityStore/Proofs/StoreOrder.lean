import EntityStore.Proofs.BatchReads
import EntityStore.Proofs.StoredKeys
/-!
# One order of keys

Two orders of keys are defined apart: `Cells.compare`, by which answers are sorted, and the lexicographic order that
lists and options carry, by which a table keeps its lines.  They are the same (`Cells.compare_eq`), and it is a total
order that tells keys apart (`Cells.isTotalOrder_compare`).  On the strength of it scans do not sort: entities that stand
in the order of a table are those that sorting leaves as they are (`EntityType.sortById_eq_self_iff`), and rows are read
in that order (`Session.inTableOrder_of_collect`).
-/
namespace EntityStore

open Std

variable {X : Scalars}

/-! ## The order -/

namespace Cells

/-- A total order of keys, in which none but equal keys compare as equal. -/
structure IsTotalOrder (order : Cells X → Cells X → Ordering) : Prop where
  refl : ∀ a, order a a = .eq
  eq_iff : ∀ a b, order a b = .eq ↔ a = b
  swap : ∀ a b, order a b = (order b a).swap
  antisymm : ∀ a b, order a b ≠ .gt → order b a ≠ .gt → a = b
  trans : ∀ a b c, order a b ≠ .gt → order b c ≠ .gt → order a c ≠ .gt
  total : ∀ a b, order a b ≠ .gt ∨ order b a ≠ .gt

/-- **The canonical order is total and tells keys apart**, because the lexicographic one does. -/
theorem isTotalOrder_compare : IsTotalOrder (X := X) Cells.compare := by
  have hsame : Cells.compare (X := X) = Ord.compare := funext fun a => funext (compare_eq a)
  rw [hsame]
  refine ⟨fun a => ReflOrd.compare_self, fun a b => LawfulEqOrd.compare_eq_iff_eq, fun a b => OrientedOrd.eq_swap,
    fun a b hab hba => ?_, fun a b c hab hbc => ?_, fun a b => ?_⟩
  · cases h : Ord.compare a b with
    | lt => exact absurd (OrientedCmp.gt_of_lt h) hba
    | eq => exact LawfulEqOrd.eq_of_compare h
    | gt => exact absurd h hab
  · exact Ordering.ne_gt_iff_isLE.2
      (TransCmp.isLE_trans (Ordering.ne_gt_iff_isLE.1 hab) (Ordering.ne_gt_iff_isLE.1 hbc))
  · cases h : Ord.compare a b with
    | lt => exact .inl nofun
    | eq => exact .inl nofun
    | gt => exact .inr fun hba => nomatch h.symm.trans (OrientedOrd.eq_swap.trans (congrArg Ordering.swap hba))

theorem compareCell_eq_lt_iff (x y : Option (Value X)) :
    compareCell x y = .lt ↔ Option.lt (fun v w => v.compare w = .lt) x y := by
  cases x <;> cases y <;> simp [compareCell, Option.lt]

/-- **The canonical order is the lexicographic one**: the first cells that differ decide, and a key comes before those
that continue it. -/
theorem compare_eq_lt_iff_lex : ∀ a b : Cells X,
    a.compare b = .lt ↔ List.Lex (Option.lt fun v w : Value X => v.compare w = .lt) a b
  | [], [] => iff_of_false nofun nofun
  | [], _ :: _ => iff_of_true (Nat.compare_eq_lt.2 (Nat.succ_pos _)) .nil
  | _ :: _, [] => iff_of_false (fun h => nomatch (compare_eq _ _).symm.trans h) nofun
  | x :: a, y :: b => by
    have hcells : Ord.compare x y = .eq ↔ x = y := LawfulEqOrd.compare_eq_iff_eq
    rw [compare_eq, List.compare_cons_cons, Ordering.then_eq_lt, List.cons_lex_cons_iff, ← compare_eq_lt_iff_lex a b,
      ← compareCell_eq_lt_iff, compareCell_eq, compare_eq, hcells]

end Cells

/-! ## Rows as they are read -/

variable {κ : Type} [DecidableEq κ] {C : κ → EntityType X}

namespace Session

variable {s : Session C} {k : κ}

/-- **What is collected from a table comes in its order**, whichever rows are wanted. -/
theorem inTableOrder_of_collect (hs : s.IsOrderly) (ho : s.tx.closedBy = none) {keep : Cells X → Except Error Bool}
    {picked : List (C k).Entity} (h : s.collect k keep (s.storage.shard? k) s.version = .ok picked) :
    (C k).InTableOrder picked := by
  rw [collect_eq_pick] at h
  cases eq_of_pick h
  refine ⟨_, EntityType.keyed_map_snd fun p hp =>
    flatten_of_mem_rows hs.storage (hs.keyed ho) (List.mem_filter.1 hp).1, ?_⟩
  refine (Ascending.filter (hs.storage.ascending_rows s.tx.id s.version k) _).imp fun {p q} hpq => ?_
  rw [hpq]
  exact nofun

/-- **A scan answers in the order of the table**, if load hooks keep identifiers. -/
theorem inTableOrder_of_scan (hs : s.IsOrderly) (hload : Cache.KeepsIds (C k)) {scan : Scan X} {action : String}
    {keep : Cells X → Except Error Bool} {es : List (C k).Entity}
    (h : let r := (s.lockScan k scan).read k action (rowsText k) ((s.lockScan k scan).collect k keep)
      (r.2.absorbRows k r.1).1 = .ok es) : (C k).InTableOrder es := by
  obtain ⟨ho, -, hes⟩ := scan_shows hs.storage hload h
  rw [hes (hs.keyed ho)]
  exact (lists_shown hs.storage (hs.keyed ho) (hs.tidy k) hload _).inTableOrder

end Session

namespace Repository

/-- **One order of keys.**  All that is known of instants and unique identifiers is that their orders are total and tell
values apart (`Scalar.total`, `Scalar.exact`).  Then the order that answers are sorted in is total and tells keys apart,
and it is the lexicographic order in which every storage of a repository keeps the lines of its tables.  Entities whose
identifiers flatten are left as they are by sorting exactly if they stand in this order.  Rows that an open transaction
reads from a table stand in it, whichever it wants, and so do the answers of its scans, if load hooks keep identifiers. -/
theorem one_order (as : List (Action C)) :
    let r := ({} : Repository C).after as
    Cells.IsTotalOrder (X := X) Cells.compare ∧
    (∀ a b : Cells X, a.compare b = Ord.compare a b ∧
      (a.compare b = .lt ↔ List.Lex (Option.lt fun v w : Value X => v.compare w = .lt) a b)) ∧
    (∀ (E : EntityType X) (schema : Schema) (entities : List E.Entity), E.schema = .ok schema →
      (∀ e ∈ entities, ∃ c, E.flatten (E.idOf e) = .ok c) →
        (∃ sorted, E.sortById entities = .ok sorted ∧ sorted.Perm entities ∧ E.InTableOrder sorted) ∧
        (E.sortById entities = .ok entities ↔ E.InTableOrder entities)) ∧
    (∀ st, r.Keeps st → ∀ k shard, st.shard? k = some shard →
      shard.lines.Pairwise fun p q => p.1.compare q.1 = .lt) ∧
    ∀ id s k schema, r.session? id = some s → s.tx.closedBy = none → (C k).schema = .ok schema →
      (∀ keep picked, s.collect k keep (s.storage.shard? k) s.version = .ok picked →
        (C k).sortById picked = .ok picked) ∧
      (Cache.KeepsIds (C k) →
        (∀ answer, (r.perform (.statement id (.findAll k))).1 = .ok answer → (C k).sortById answer = .ok answer) ∧
        ∀ range answer, (r.perform (.statement id (.findRange k range))).1 = .ok answer →
          (C k).sortById answer = .ok answer) := by
  intro r
  have hr : r.Sound := sound_after sound_empty as
  refine ⟨Cells.isTotalOrder_compare, fun a b => ⟨Cells.compare_eq a b, Cells.compare_eq_lt_iff_lex a b⟩,
    fun E schema entities hschema hflat => ⟨(EntityType.exists_sortById hschema hflat).imp
      fun _ h => ⟨h, EntityType.sortById_perm h, EntityType.inTableOrder_of_sortById h⟩,
      EntityType.sortById_eq_self_iff hschema⟩, fun st hst k shard hshard => ?_,
    fun id s k schema hs ho hschema => ?_⟩
  · exact ((hr.kept hst).shard k shard hshard).ascending.imp fun {p q} hpq => (Cells.compare_eq p.1 q.1).trans hpq
  · have horderly := isOrderly_session as hs
    refine ⟨fun keep picked hpicked => (EntityType.sortById_eq_self_iff hschema).2
      (Session.inTableOrder_of_collect horderly ho hpicked), fun hload => ?_⟩
    have hperform : ∀ op : TableOp C, (r.perform (.statement id op)).1 = (op.run s).1 :=
      fun op => congrArg Prod.fst (onSession_of_some hs op.run)
    refine ⟨fun answer h => ?_, fun range answer h => ?_⟩
    · rw [hperform] at h
      exact (EntityType.sortById_eq_self_iff hschema).2 (Session.inTableOrder_of_scan (horderly.openTable k) hload h)
    · rw [hperform] at h
      exact (EntityType.sortById_eq_self_iff hschema).2 (Session.inTableOrder_of_scan (horderly.openTable k) hload h)

end Repository

open Sample in
/-- A transaction that has deleted one of three items lists the others in an order that sorting leaves; the other way
round it does not. -/
theorem Repository.one_order_beside_deletion :
    let r := ({} : Repository (catalog "sample")).after deletingBeside
    (r.perform (.statement 2 (.findAll .item))).1 = .ok [firstItem, numbered 2 "other"] ∧
      (catalog "sample" .item).sortById [firstItem, numbered 2 "other"] = .ok [firstItem, numbered 2 "other"] ∧
      (catalog "sample" .item).sortById [numbered 2 "other", firstItem] ≠ .ok [numbered 2 "other", firstItem] := by
  intro r
  obtain ⟨s, hs⟩ : ∃ s, r.session? 2 = some s := ⟨_, rfl⟩
  obtain ⟨schema, hschema⟩ : ∃ schema, (catalog "sample" .item).schema = .ok schema := ⟨_, rfl⟩
  have ho : s.tx.closedBy = none := by
    cases hs
    rfl
  have hall : (r.perform (.statement 2 (.findAll .item))).1 = .ok [firstItem, numbered 2 "other"] := rfl
  obtain ⟨-, -, hsorts, -, hreads⟩ := one_order deletingBeside
  refine ⟨hall, ((hreads 2 s .item schema hs ho hschema).2 fun _ => rfl).1 _ hall, fun hself => ?_⟩
  have hflat : ∀ e ∈ [numbered 2 "other", firstItem], ∃ c, (catalog "sample" .item).flatten e.id = .ok c := by
    simp only [List.forall_mem_cons]
    exact ⟨⟨_, rfl⟩, ⟨_, rfl⟩, nofun⟩
  obtain ⟨pairs, hpairs, hordered⟩ := (hsorts (catalog "sample" .item) schema _ hschema hflat).2.1 hself
  cases hpairs
  exact (List.pairwise_cons.1 hordered).1 _ List.mem_cons_self rfl

end EntityStore
