import EntityStore.Proofs.Commits
import EntityStore.Proofs.Congruence
import EntityStore.Proofs.Slots
import EntityStore.Proofs.Turns
/-!
# What a transaction has asked the store for

`Session.Asks` tells which keys a statement asks the store for: none that the cache answers, the single row of a complete
identifier or of an insertion, and every key that belongs to a scan.  `Repository.Asked` is that for a whole run, and
`covers_iff_asked` says that the locks of an open transaction are just this account of it.
-/
namespace EntityStore

variable {X : Scalars} {κ : Type} [DecidableEq κ] {C : κ → EntityType X}

namespace Locks

theorem covers_lockRow (l : Locks X κ) (k j : κ) (c d : Cells X) :
    (l.lockRow k c).covers j d = true ↔ l.covers j d = true ∨ j = k ∧ c = d := by
  constructor
  · intro h
    unfold covers TableLocks.covers at h ⊢
    rw [on_lockRow] at h
    split at h
    · rename_i hk
      subst hk
      unfold TableLocks.addRow at h
      split at h
      · exact .inl h
      · simp only [List.contains_iff_mem, List.mem_append, List.mem_singleton, Bool.or_eq_true] at h ⊢
        rcases h with (h | rfl) | h
        · exact .inl (.inl h)
        · exact .inr ⟨trivial, rfl⟩
        · exact .inl (.inr h)
    · exact .inl h
  · rintro (h | ⟨rfl, rfl⟩)
    · exact covers_lockRow_of_covers h k c
    · exact covers_lockRow_self ..

theorem covers_lockScan (l : Locks X κ) (k j : κ) (scan : Scan X) (d : Cells X) :
    (l.lockScan k scan).covers j d = true ↔ l.covers j d = true ∨ j = k ∧ scan.covers d = true := by
  constructor
  · intro h
    unfold covers TableLocks.covers at h ⊢
    rw [on_lockScan] at h
    split at h
    · rename_i hk
      subst hk
      simp only [TableLocks.addScan, List.any_append, List.any_cons, List.any_nil, Bool.or_false, Bool.or_eq_true] at h ⊢
      rcases h with h | h | h
      · exact .inl (.inl h)
      · exact .inl (.inr h)
      · exact .inr ⟨trivial, h⟩
    · exact .inl h
  · rintro (h | ⟨rfl, h⟩)
    · exact covers_lockScan_of_covers h k scan
    · exact covers_lockScan_self h j

end Locks

/-! ## What a statement asks for -/

/-- A flat identifier asks for its own key, or if it is partial for all keys that agree with it. -/
def Cells.Wants (p c : Cells X) : Prop := if Cells.isPartial p = true then Cells.agrees p c = true else p = c

/-- Some identifiers ask for a key, up to the first that has no flat form. -/
def EntityType.AnyWants (E : EntityType X) : List E.Id → Cells X → Prop
  | [], _ => False
  | id :: rest, c =>
    match E.flatten id with
    | .error _ => False
    | .ok p => Cells.Wants p c ∨ E.AnyWants rest c

theorem EntityType.anyWants_iff {E : EntityType X} {c : Cells X} : ∀ {ids : List E.Id},
    (∀ id ∈ ids, ∃ p, E.flatten id = .ok p) →
      (E.AnyWants ids c ↔ ∃ id ∈ ids, ∃ p, E.flatten id = .ok p ∧ Cells.Wants p c)
  | [], _ => by simp [AnyWants]
  | id :: rest, h => by
    obtain ⟨p, hp⟩ := h id List.mem_cons_self
    rw [AnyWants, hp, anyWants_iff fun id' hid' => h id' (List.mem_cons_of_mem id hid')]
    simp [hp]

/-- A statement asks the store for a key. -/
def Session.Asks (s : Session C) (op : TableOp C) (j : κ) (c : Cells X) : Prop :=
  match op with
  | .find k id => j = k ∧ (C k).flatten id = .ok c ∧ Cells.isPartial c = false ∧ (s.tx.cache k).contains id = false
  | .findMany k ids =>
    j = k ∧ (∃ isPartial, Cache.arePartial (E := C k) ids.eraseDups = .ok isPartial) ∧
      ∃ id ∈ ids, (s.tx.cache k).contains id = false ∧ ∃ p, (C k).flatten id = .ok p ∧ Cells.Wants p c
  | .findUncached k ids => j = k ∧ (C k).AnyWants ids.eraseDups c
  | .findRange k r => j = k ∧ (Scan.interval r).covers c = true
  | .findAll k => j = k
  | .insert k e => j = k ∧ (C k).flatten ((C k).idOf ((C k).onSave e)) = .ok c
  | .save _ _ | .delete _ _ | .postLoad _ _ | .cache _ _ => False

/-! ## What a statement locks -/

theorem Cache.state_merge {E : EntityType X} {σ : Type} (c : Cache E) (ids : List E.Id)
    (ask : List E.Id → σ → Except Error (List E.Entity) × σ) (s : σ) :
    (c.merge ids ask s).2.2 =
      match arePartial (E := E) ids.eraseDups with
      | .error _ => s
      | .ok _ => if (c.unknown ids.eraseDups).isEmpty then s else (ask (c.unknown ids.eraseDups) s).2 := by
  unfold merge
  cases ids with
  | nil =>
    cases arePartial (E := E) ([] : List E.Id).eraseDups <;> rfl
  | cons first rest =>
    rw [if_neg (by simp)]
    dsimp only
    cases arePartial (E := E) (first :: rest).eraseDups with
    | error e => rfl
    | ok isPartial =>
      dsimp only
      split
      · rename_i hr
        split at hr
        · cases hr
        · rename_i hne
          rw [if_neg hne, hr]
      · rename_i hr
        split at hr
        · rename_i he
          cases hr
          rw [if_pos he]
        · rename_i hne
          rw [if_neg hne, hr]

namespace Session

theorem covers_lockIds_iff (k j : κ) (c : Cells X) : ∀ (ids : List (C k).Id) (s : Session C),
    (s.lockIds k ids).2.tx.locks.covers j c = true ↔ s.tx.locks.covers j c = true ∨ j = k ∧ (C k).AnyWants ids c
  | [], s => by simp [lockIds, EntityType.AnyWants]
  | id :: rest, s => by
    rw [lockIds, EntityType.AnyWants]
    cases hp : (C k).flatten id with
    | error e => simp
    | ok p =>
      have hrest := covers_lockIds_iff k j c rest
        (if Cells.isPartial p = true then s.lockScan k (.agreeing p) else s.lockRow k p)
      have hfirst : (if Cells.isPartial p = true then s.lockScan k (.agreeing p) else s.lockRow k p).tx.locks.covers j c =
          true ↔ s.tx.locks.covers j c = true ∨ j = k ∧ Cells.Wants p c := by
        unfold Cells.Wants
        split
        · exact Locks.covers_lockScan ..
        · exact Locks.covers_lockRow ..
      dsimp only
      generalize lockIds _ k rest = r at hrest
      obtain ⟨answer, s'⟩ := r
      rw [hfirst, or_assoc, ← and_or_left] at hrest
      cases answer <;> exact hrest

theorem covers_findUncached (s : Session C) (k j : κ) (ids : List (C k).Id) (c : Cells X) :
    (s.findUncached k ids).2.tx.locks.covers j c = true ↔
      s.tx.locks.covers j c = true ∨ j = k ∧ (C k).AnyWants ids.eraseDups c := by
  rw [← covers_lockIds_iff]
  unfold findUncached
  cases hschema : (C k).schema with
  | error e =>
    -- without a schema no identifier has a flat form
    have hnone : (s.lockIds k ids.eraseDups).2 = s := by
      cases ids.eraseDups with
      | nil => rfl
      | cons id rest =>
        rw [lockIds, EntityType.flatten_of_no_schema hschema]
    dsimp only
    rw [hnone]
  | ok schema =>
    dsimp only
    generalize s.lockIds k ids.eraseDups = r
    obtain ⟨answer, s'⟩ := r
    cases answer with
    | error e => rfl
    | ok keys =>
      dsimp only
      rw [locks_read]

theorem covers_findMany (s : Session C) (k j : κ) (ids : List (C k).Id) (c : Cells X) :
    (s.findMany k ids).2.tx.locks.covers j c = true ↔
      s.tx.locks.covers j c = true ∨ s.Asks (.findMany k ids) j c := by
  have hlocks : (s.findMany k ids).2.tx.locks =
      ((s.tx.cache k).merge ids (fun wanted s => s.findUncached k wanted) s).2.2.tx.locks := by
    unfold findMany
    split
    · rename_i hr
      rw [hr]
      rfl
    · rename_i hr
      rw [hr]
      rfl
  rw [hlocks, Cache.state_merge]
  unfold Asks
  dsimp only
  generalize hp : Cache.arePartial (E := C k) ids.eraseDups = allowed
  cases allowed with
  | error e => simp only [reduceCtorEq, exists_false, false_and, and_false, or_false]
  | ok isPartial =>
    have hflat : ∀ id ∈ ((s.tx.cache k).unknown ids.eraseDups).eraseDups, ∃ p, (C k).flatten id = .ok p := by
      intro id hid
      rw [List.mem_eraseDups] at hid
      exact (Cache.flatten_of_arePartial hp id (List.mem_filter.1 hid).1).imp fun _ h => h.1
    have hallowed : ∃ b, Except.ok (ε := Error) isPartial = .ok b := ⟨isPartial, rfl⟩
    have hwants : (C k).AnyWants ((s.tx.cache k).unknown ids.eraseDups).eraseDups c ↔
        ∃ id ∈ ids, (s.tx.cache k).contains id = false ∧ ∃ p, (C k).flatten id = .ok p ∧ Cells.Wants p c := by
      rw [EntityType.anyWants_iff hflat]
      simp only [List.mem_eraseDups, Cache.unknown, List.mem_filter, Bool.not_eq_true', and_assoc]
    dsimp only
    split
    · rename_i he
      have hnone : ¬(C k).AnyWants ((s.tx.cache k).unknown ids.eraseDups).eraseDups c := by
        rw [List.isEmpty_iff.1 he]
        exact id
      rw [hwants] at hnone
      simp only [hnone, and_false, or_false]
    · rw [covers_findUncached, hwants]
      simp only [hallowed, true_and]

end Session

namespace TableOp

open Session

theorem covers_runOpen (op : TableOp C) (s : Session C) (j : κ) (c : Cells X) :
    (op.runOpen s).2.tx.locks.covers j c = true ↔ s.tx.locks.covers j c = true ∨ s.Asks op j c := by
  cases op with
  | find k id =>
    simp only [runOpen, Session.find, Session.Asks]
    cases hc : (C k).flatten id with
    | error e => simp
    | ok d =>
      dsimp only
      split
      · rename_i hp
        -- a partial identifier is turned down before anything is locked
        have hnot : ¬(j = k ∧ Except.ok (ε := Error) d = .ok c ∧ Cells.isPartial c = false ∧
            (s.tx.cache k).contains id = false) := by
          rintro ⟨-, hd, hfull, -⟩
          cases hd
          rw [hp] at hfull
          cases hfull
        simp only [hnot, or_false]
      · rename_i hp
        split
        · rename_i hknown
          simp [hknown]
        · rename_i hunknown
          rw [locks_findUnknown, Locks.covers_lockRow]
          simp only [Except.ok.injEq, hunknown, and_true]
          refine or_congr_right (and_congr_right fun _ => ⟨fun h => ⟨h, ?_⟩, And.left⟩)
          subst h
          simpa using hp
  | findMany k ids => exact covers_findMany s k j ids c
  | findUncached k ids => exact covers_findUncached s k j ids c
  | findRange k r =>
    refine Iff.trans ?_ (Locks.covers_lockScan s.tx.locks k j (.interval r) c)
    exact iff_of_eq (congrArg (fun l : Locks X κ => l.covers j c = true) ((locks_absorbRows ..).trans (locks_read ..)))
  | findAll k =>
    refine Iff.trans ?_ ((Locks.covers_lockScan s.tx.locks k j .table c).trans (by simp [Asks, Scan.covers]))
    exact iff_of_eq (congrArg (fun l : Locks X κ => l.covers j c = true) ((locks_absorbRows ..).trans (locks_read ..)))
  | insert k e =>
    simp only [runOpen, Session.insert, Session.Asks]
    cases hc : (C k).flatten ((C k).idOf ((C k).onSave e)) with
    | error err => simp
    | ok d =>
      have hlocks := locks_writeThrough (s.lockRow k d) s!"insert({(C k).entityText ((C k).onSave e)})" k
        ⟨d, .insert ((C k).onSave e)⟩ ((C k).onSave e) (fun s => (s.tx.cache k).put ((C k).onSave e))
      refine Iff.trans (iff_of_eq (congrArg (fun l : Locks X κ => l.covers j c = true) hlocks)) ?_
      refine (Locks.covers_lockRow s.tx.locks k j d c).trans ?_
      simp
  | save k e =>
    simp only [runOpen, Session.save, Session.Asks, or_false]
    split
    · rfl
    · exact iff_of_eq (congrArg (fun l : Locks X κ => l.covers j c = true)
        (locks_writeThrough _ _ k _ _ (fun s => (s.tx.cache k).put ((C k).onSave e))))
  | delete k id =>
    simp only [runOpen, Session.delete, Session.Asks, or_false]
    split
    · rfl
    · exact iff_of_eq (congrArg (fun l : Locks X κ => l.covers j c = true)
        (locks_writeThrough _ _ k _ _ (fun s => (s.tx.cache k).putTombstone id)))
  | postLoad k row => simp [runOpen, Session.Asks, Session.postLoad, Session.setCache, Transaction.setCache]
  | cache k op => simp [runOpen, Session.Asks, Session.setCache, Transaction.setCache]

/-- **A statement locks what it asks for, and nothing else.** -/
theorem covers_run (op : TableOp C) (s : Session C) (j : κ) (c : Cells X) :
    (op.run s).2.tx.locks.covers j c = true ↔ s.tx.locks.covers j c = true ∨ s.Asks op j c := by
  have hcache := s.cache_openTable op.kind
  refine (op.covers_runOpen (s.openTable op.kind) j c).trans ?_
  rw [locks_openTable]
  unfold Asks
  simp only [hcache]

end TableOp

/-! ## What a transaction has asked for in a run -/

namespace Repository

/-- A statement of a transaction asks the store for a key. -/
def Asks (id : TxId) (k : κ) (c : Cells X) (r : Repository C) (a : Action C) : Prop :=
  ∃ op s, a = .statement id op ∧ r.session? id = some s ∧ s.Asks op k c

/-- In a run, a transaction has asked the store for a key. -/
def Asked (as : List (Action C)) (id : TxId) (k : κ) (c : Cells X) : Prop :=
  ({} : Repository C).Happens (Asks id k c) as

theorem asked_concat (as : List (Action C)) (a : Action C) (id : TxId) (k : κ) (c : Cells X) :
    Asked (as ++ [a]) id k c ↔ Asked as id k c ∨ Asks id k c (({} : Repository C).after as) a := happens_concat ..

/-- **The locks of an open transaction cover what it has asked for, and nothing else.** -/
theorem covers_iff_asked {id : TxId} {k : κ} {c : Cells X} : ∀ (as : List (Action C)) (s : Session C),
    (({} : Repository C).after as).session? id = some s → s.tx.closedBy = none →
      (s.tx.locks.covers k c = true ↔ Asked as id k c) := by
  refine open_induction (fun as o hid => ?_) (fun as a s s' _ _ hne htx ih => ?_) (fun as op s hs _ ih => ?_)
    (fun as a s s' _ hother hidle ih => ?_)
  · refine iff_of_false Bool.false_ne_true (mt (asked_concat ..).1 (not_or.2 ⟨?_, ?_⟩))
    · refine not_happens_of_lt ?_ as sound_empty (Nat.lt_of_lt_of_eq (Nat.lt_succ_self _) hid)
      rintro r a ⟨_, s, -, hs, -⟩
      exact ⟨s, hs⟩
    · rintro ⟨_, _, heq, -⟩
      cases heq
  · rw [asked_concat, htx, or_iff_left]
    · exact ih
    · rintro ⟨_, _, rfl, -⟩
      exact hne rfl
  · rw [asked_concat]
    refine (op.covers_run s k c).trans (or_congr ih ⟨fun h => ⟨op, s, rfl, hs, h⟩, ?_⟩)
    rintro ⟨_, _, heq, hs₀, h⟩
    cases heq
    cases hs.symm.trans hs₀
    exact h
  · rw [asked_concat, hidle.locks, or_iff_left]
    · exact ih
    · rintro ⟨op, _, rfl, -⟩
      exact hother op rfl

end Repository

end EntityStore
