import EntityStore.Proofs.Closings
/-!
# What statements lock

A transaction that has locked something keeps it locked: `TableOp.grows_run` says so of every statement.  The equations
`locks_…` tell what a statement adds, and the equations `snapshot_…` that a read of the store fixes the snapshot.
-/
namespace EntityStore

variable {X : Scalars} {κ : Type} [DecidableEq κ] {C : κ → EntityType X}

/-! ## Covered keys -/

namespace Locks

theorem covers_lockRow_self (l : Locks X κ) (k : κ) (c : Cells X) : (l.lockRow k c).covers k c = true := by
  unfold covers TableLocks.covers
  rw [on_lockRow, if_pos rfl]
  unfold TableLocks.addRow
  split
  · rename_i hc
    rw [hc, Bool.true_or]
  · simp

theorem covers_lockRow_of_covers {l : Locks X κ} {j : κ} {d : Cells X} (h : l.covers j d = true) (k : κ) (c : Cells X) :
    (l.lockRow k c).covers j d = true := by
  unfold covers TableLocks.covers at h ⊢
  rw [on_lockRow]
  split
  · rename_i he
    subst he
    unfold TableLocks.addRow
    split
    · exact h
    · simp only [Bool.or_eq_true, List.contains_append] at h ⊢
      exact h.imp_left .inl
  · exact h

theorem covers_lockScan_self {l : Locks X κ} {scan : Scan X} {c : Cells X} (h : scan.covers c = true) (k : κ) :
    (l.lockScan k scan).covers k c = true := by
  unfold covers TableLocks.covers
  rw [on_lockScan, if_pos rfl]
  simp [TableLocks.addScan, h]

theorem covers_lockScan_of_covers {l : Locks X κ} {j : κ} {d : Cells X} (h : l.covers j d = true) (k : κ) (scan : Scan X) :
    (l.lockScan k scan).covers j d = true := by
  unfold covers TableLocks.covers at h ⊢
  rw [on_lockScan]
  split
  · rename_i he
    subst he
    simp only [TableLocks.addScan, List.any_append, Bool.or_eq_true] at h ⊢
    exact h.imp_right .inl
  · exact h

end Locks

/-! ## The locks after a statement -/

namespace Session

/-- Locks that a transaction holds stay. -/
def Grows (s s' : Session C) : Prop := ∀ k c, s.tx.locks.covers k c = true → s'.tx.locks.covers k c = true

namespace Grows

variable {s s' s'' : Session C}

theorem of_eq (h : s'.tx.locks = s.tx.locks) : Grows s s' := fun _ _ hc => h ▸ hc

theorem trans (h : Grows s s') (h' : Grows s' s'') : Grows s s'' := fun k c hc => h' k c (h k c hc)

theorem lockRow (s : Session C) (k : κ) (c : Cells X) : Grows s (s.lockRow k c) :=
  fun _ _ hc => Locks.covers_lockRow_of_covers hc k c

theorem lockRowIf (s : Session C) (lock : Bool) (k : κ) (c : Cells X) : Grows s (s.lockRowIf lock k c) := by
  cases lock with
  | true => exact lockRow s k c
  | false => exact fun _ _ hc => hc

theorem lockScan (s : Session C) (k : κ) (scan : Scan X) : Grows s (s.lockScan k scan) :=
  fun _ _ hc => Locks.covers_lockScan_of_covers hc k scan

theorem lockIds (k : κ) : ∀ (ids : List (C k).Id) (s : Session C), Grows s (s.lockIds k ids).2
  | [], s => of_eq rfl
  | id :: rest, s => by
    rw [Session.lockIds]
    split
    · exact of_eq rfl
    · rename_i cells _
      have hl :
          Grows s (if Cells.isPartial cells = true then s.lockScan k (.agreeing cells) else s.lockRow k cells) := by
        split
        · exact lockScan s k _
        · exact lockRow s k _
      have := hl.trans (lockIds k rest _)
      dsimp only
      split
      · rename_i hr
        rw [hr] at this
        exact this
      · rename_i hr
        rw [hr] at this
        exact this

end Grows

theorem locks_read {α : Type} (s : Session C) (k : κ) (action : String) (summary : α → String)
    (f : Option (Shard (C k)) → Nat → Except Error α) : (s.read k action summary f).2.tx.locks = s.tx.locks := by
  rcases s.read_cases k action summary f with ⟨_, -, he⟩ | ⟨-, _, -, he⟩ | ⟨-, -, he⟩
  · rw [he]
  · rw [he]
    rfl
  · rw [he]
    cases f (s.storage.shard? k) s.version <;> rfl

theorem snapshot_read {α : Type} {s : Session C} (ho : s.tx.closedBy = none) (k : κ) (action : String)
    (summary : α → String) (f : Option (Shard (C k)) → Nat → Except Error α) :
    (s.read k action summary f).2.tx.snapshot = some s.version := by
  rcases s.read_cases k action summary f with ⟨_, hc, -⟩ | ⟨-, _, -, he⟩ | ⟨-, -, he⟩
  · rw [ho] at hc
    cases hc
  · rw [he]
    rfl
  · rw [he]
    cases f (s.storage.shard? k) s.version <;> rfl

theorem locks_write (s : Session C) (action : String) (k : κ) (w : Write (C k)) :
    (s.write action k w).2.tx.locks = s.tx.locks := by
  rcases s.write_cases action k w with ⟨e, he⟩ | ⟨-, -, -, he⟩ | ⟨-, -, -, he⟩
  · rw [he]
  · rw [he, (s.apply_spec action k w).2.2]
  · rw [he]

theorem locks_writeThrough {α : Type} (s : Session C) (action : String) (k : κ) (w : Write (C k)) (a : α)
    (cache : Session C → Cache (C k)) : (s.writeThrough action k w a cache).2.tx.locks = s.tx.locks := by
  have h := s.locks_write action k w
  unfold writeThrough
  split
  · rename_i hr
    rw [hr] at h
    exact h
  · rename_i hr
    rw [hr] at h
    exact h

theorem locks_openTable (s : Session C) (k : κ) : (s.openTable k).tx.locks = s.tx.locks := by
  unfold openTable
  split <;> rfl

theorem locks_findUnknown (s : Session C) (k : κ) (id : (C k).Id) (c : Cells X) :
    (s.findUnknown k id c).2.tx.locks = s.tx.locks.lockRow k c := by
  unfold findUnknown
  dsimp only
  split
  · rename_i hr
    exact (congrArg (fun r => r.2.tx.locks) hr).symm.trans (locks_read ..)
  · rename_i hr
    exact (congrArg (fun r => r.2.tx.locks) hr).symm.trans (locks_read ..)

theorem snapshot_findUnknown {s : Session C} (ho : s.tx.closedBy = none) (k : κ) (id : (C k).Id) (c : Cells X) :
    (s.findUnknown k id c).2.tx.snapshot = some s.version := by
  have ho' : (s.lockRow k c).tx.closedBy = none := ho
  unfold findUnknown
  dsimp only
  split
  · rename_i hr
    exact (congrArg (fun r => r.2.tx.snapshot) hr).symm.trans (snapshot_read ho' ..)
  · rename_i hr
    exact (congrArg (fun r => r.2.tx.snapshot) hr).symm.trans (snapshot_read ho' ..)

theorem snapshot_absorbRows (s : Session C) (k : κ) (rows : Except Error (List (C k).Entity)) :
    (s.absorbRows k rows).2.tx.snapshot = s.tx.snapshot := by cases rows <;> rfl

theorem locks_absorbRows (s : Session C) (k : κ) (rows : Except Error (List (C k).Entity)) :
    (s.absorbRows k rows).2.tx.locks = s.tx.locks := by cases rows <;> rfl

theorem locks_findUncached (s : Session C) (k : κ) (ids : List (C k).Id) :
    (s.findUncached k ids).2.tx.locks = s.tx.locks ∨
      (s.findUncached k ids).2.tx.locks = (s.lockIds k ids.eraseDups).2.tx.locks := by
  unfold findUncached
  split
  · exact .inl rfl
  · right
    split
    · rename_i hr
      rw [hr]
    · rename_i hr
      rw [hr]
      exact locks_read ..

theorem grows_findUncached (s : Session C) (k : κ) (ids : List (C k).Id) : Grows s (s.findUncached k ids).2 := by
  rcases s.locks_findUncached k ids with h | h
  · exact .of_eq h
  · exact (Grows.lockIds k ids.eraseDups s).trans (.of_eq h)

end Session

namespace TableOp

open Session

theorem grows_of_isWrite (op : TableOp C) (hop : op.isWrite = true) (s : Session C) : Grows s (op.runOpen s).2 := by
  cases op.writing hop with
  | fails _ _ _ hrun =>
    rw [hrun]
    exact .of_eq rfl
  | writes k w id slot lock action a _ _ _ _ _ hrun =>
    rw [hrun]
    exact (Grows.lockRowIf s lock k w.cells).trans
      (.of_eq (locks_writeThrough _ action k w a (fun s => (s.tx.cache k).setSlot id slot)))

theorem grows_runOpen (op : TableOp C) (s : Session C) : Grows s (op.runOpen s).2 := by
  cases op with
  | find k id =>
    simp only [runOpen, Session.find]
    split
    · exact .of_eq rfl
    · split
      · exact .of_eq rfl
      · split
        · exact .of_eq rfl
        · exact (Grows.lockRow s k _).trans (.of_eq (locks_findUnknown ..))
  | findMany k ids =>
    simp only [runOpen, Session.findMany]
    rcases (s.tx.cache k).merge_cases ids (fun wanted (s : Session C) => s.findUncached k wanted) with
      ⟨r, c, hm⟩ | ⟨g, hm⟩
    · rw [hm]
      cases r <;> exact .of_eq rfl
    · rw [hm]
      have := grows_findUncached s k ((s.tx.cache k).unknown ids.eraseDups)
      generalize g (s.findUncached k ((s.tx.cache k).unknown ids.eraseDups)).1 = answer
      obtain ⟨result, c⟩ := answer
      cases result <;> exact this
  | findUncached k ids => exact grows_findUncached s k ids
  | findRange k r => exact (Grows.lockScan s k _).trans (.of_eq ((locks_absorbRows ..).trans (locks_read ..)))
  | findAll k => exact (Grows.lockScan s k _).trans (.of_eq ((locks_absorbRows ..).trans (locks_read ..)))
  | postLoad k row => exact .of_eq rfl
  | cache k op => exact .of_eq rfl
  | _ => exact grows_of_isWrite _ rfl s

/-- **A statement keeps the locks that are held.** -/
theorem grows_run (op : TableOp C) (s : Session C) : Grows s (op.run s).2 :=
  (Grows.of_eq (s.locks_openTable op.kind)).trans (op.grows_runOpen _)

end TableOp

end EntityStore
