import EntityStore.Proofs.Invalidation
import EntityStore.Proofs.PrefixReads
/-!
# A set of identifiers, and each of them

A set of complete identifiers can be read at once, or one identifier after another.  The first asks the store once for
all that the cache does not know, and checks the locks once; the second asks, checks and remembers for each identifier
on its own.

Both come to the same.  What a transaction has under an identifier is `Session.sight`, and `Session.Answers` says when
it can be had.  `Session.Acquires` is what such a read leaves; it depends on the set of identifiers alone, and for
disjoint sets one read after another adds up to the read of both (`Session.Acquires.append`,
`Session.Acquires.answers_iff`).  A point read is one of a single identifier (`Session.find_cases`), and so is what the
merge with the cache does for all of them (`Session.findMany_cases`), so that a run of point reads is a read of the set
in any order (`Session.findEach_cases`).
-/
namespace EntityStore

open Std

variable {X : Scalars} {κ : Type} [DecidableEq κ] {C : κ → EntityType X}

namespace EntityType

variable {E : EntityType X}

/-- An identifier has a flat form, and a complete one. -/
def Filled (E : EntityType X) (id : E.Id) : Prop := ∃ c, E.flatten id = .ok c ∧ Cells.isPartial c = false

theorem Filled.isComplete {id : E.Id} (h : E.Filled id) : E.IsComplete id := by
  intro c hc
  obtain ⟨d, hd, hfilled⟩ := h
  rw [hc] at hd
  cases hd
  exact hfilled

/-- Where identifiers are told apart, entities that stand in order and have distinct identifiers are ascending. -/
theorem pairwise_lt (hids : E.TellsApart) {es : List E.Entity} (hfilled : ∀ e ∈ es, E.Filled (E.idOf e))
    (hnodup : (es.map E.idOf).Nodup) (hsorted : es.Pairwise fun a b => E.NotAfter (E.idOf a) (E.idOf b)) :
    es.Pairwise fun a b => E.compareIds (E.idOf a) (E.idOf b) = .ok .lt := by
  rw [List.nodup_iff_pairwise_ne, List.pairwise_map] at hnodup
  refine (hsorted.and hnodup).imp_of_mem fun {a b} ha hb hab => ?_
  obtain ⟨⟨order, horder, hnot⟩, hne⟩ := hab
  cases order with
  | lt => exact horder
  | gt => exact absurd rfl hnot
  | eq =>
    obtain ⟨c, hc, hcomplete⟩ := hfilled a ha
    obtain ⟨d, hd, -⟩ := hfilled b hb
    rw [compareIds_of_flatten hc hd] at horder
    have hcd : c = d := compare_eq_iff_eq.1 ((Cells.compare_eq c d).symm.trans (Except.ok.inj horder))
    subst hcd
    exact absurd (hids _ _ c hc hd hcomplete) hne

end EntityType

/-- Point reads of identifiers one after another, up to the first failure. -/
def Work.findEach (k : κ) : List (C k).Id → Work C (List (Option (C k).Entity))
  | [] => .done (.ok [])
  | id :: rest =>
    .statement (.find k id) fun (answer : Except Error (Option (C k).Entity)) =>
      match answer with
      | .error e => .done (.error e)
      | .ok found => (findEach k rest).andThen fun more => .done (more.map fun more => found :: more)

section

variable {k : κ} {id : (C k).Id} {s : Session C}

theorem Work.run_findEach_cons (k : κ) (id : (C k).Id) (rest : List (C k).Id) (s : Session C) :
    (Work.findEach k (id :: rest)).run s =
      Work.run (match ((s.openTable k).find k id).1 with
        | .error e => .done (.error e)
        | .ok found => (Work.findEach k rest).andThen fun more => .done (more.map fun more => found :: more))
        ((s.openTable k).find k id).2 := rfl

theorem Work.run_findEach_of_error {e : Error} (h : ((s.openTable k).find k id).1 = .error e) (rest : List (C k).Id) :
    (Work.findEach k (id :: rest)).run s = (.error e, ((s.openTable k).find k id).2) := by
  rw [run_findEach_cons, h]
  rfl

theorem Work.run_findEach_of_ok {found : Option (C k).Entity} (h : ((s.openTable k).find k id).1 = .ok found)
    (rest : List (C k).Id) :
    (Work.findEach k (id :: rest)).run s =
      (((Work.findEach k rest).run ((s.openTable k).find k id).2).1.map fun more => found :: more,
        ((Work.findEach k rest).run ((s.openTable k).find k id).2).2) := by
  rw [run_findEach_cons, h]
  exact Work.run_andThen ..

end

/-- What a cache remembers of an answer. -/
def Slot.ofAnswer {ε : Type} : Option ε → Slot ε
  | some e => .present e
  | none => .absent

theorem Cache.lookup_settle {E : EntityType X} (c : Cache E) {id : E.Id} {e? : Option E.Entity}
    (hown : ∀ e, e? = some e → E.idOf e = id) (j : E.Id) :
    (c.settle id e?).lookup j = if c.enabled = true ∧ id = j then some (.ofAnswer e?) else c.lookup j := by
  cases e? with
  | none => exact c.lookup_setSlot id j .absent
  | some e =>
    have hid := hown e rfl
    subst hid
    exact c.lookup_setSlot (E.idOf e) j (.present e)

theorem Cache.arePartial_of_complete {E : EntityType X} {ids : List E.Id} (hne : ids ≠ []) (h : ∀ id ∈ ids, E.Filled id) :
    arePartial (E := E) ids.eraseDups = .ok false := by
  obtain ⟨first, hfirst⟩ := List.exists_mem_of_ne_nil ids hne
  obtain ⟨c, hc, -⟩ := h first hfirst
  obtain ⟨schema, hschema, -⟩ := EntityType.length_of_flatten hc
  have hpattern : ∀ id ∈ ids.eraseDups, ∃ p, E.flatten id = .ok p ∧
      p.map Option.isNone = List.replicate schema.width false := by
    intro id hid
    obtain ⟨p, hp, hcomplete⟩ := h id (List.mem_eraseDups.1 hid)
    obtain ⟨schema', hschema', hlength⟩ := EntityType.length_of_flatten hp
    cases hschema.symm.trans hschema'
    refine ⟨p, hp, List.eq_replicate_iff.2 ⟨by rw [List.length_map, hlength], fun b hb => ?_⟩⟩
    obtain ⟨cell, hcell, rfl⟩ := List.mem_map.1 hb
    exact Bool.eq_false_iff.2 (List.any_eq_false.1 hcomplete cell hcell)
  rw [arePartial_eq_ok (List.ne_nil_of_mem (List.mem_eraseDups.2 hfirst)) hpattern]
  simp

/-! ## Locked rows -/

namespace Locks

theorem mem_rows_lockRow (l : Locks X κ) (k j : κ) (c d : Cells X) :
    d ∈ ((l.lockRow k c).on j).rows ↔ d ∈ (l.on j).rows ∨ j = k ∧ d = c := by
  rw [on_lockRow]
  split
  · rename_i hk
    subst hk
    unfold TableLocks.addRow
    split
    · rename_i hc
      have hmem : c ∈ (l.on k).rows := by simpa using hc
      refine ⟨.inl, ?_⟩
      rintro (hd | ⟨-, rfl⟩)
      · exact hd
      · exact hmem
    · simp
  · rename_i hk
    simp [Ne.symm hk]

theorem scans_lockRow (l : Locks X κ) (k j : κ) (c : Cells X) : ((l.lockRow k c).on j).scans = (l.on j).scans := by
  rw [on_lockRow]
  split
  · rename_i hk
    subst hk
    unfold TableLocks.addRow
    split <;> rfl
  · rfl

end Locks

namespace Session

/-- Some rows are locked on top of what is locked already, and no scan is. -/
structure LocksRows (s : Session C) (k : κ) (sought : Cells X → Prop) (s' : Session C) : Prop where
  rows : ∀ j c, c ∈ (s'.tx.locks.on j).rows ↔ c ∈ (s.tx.locks.on j).rows ∨ j = k ∧ sought c
  scans : ∀ j, (s'.tx.locks.on j).scans = (s.tx.locks.on j).scans

namespace LocksRows

variable {s s' s'' : Session C} {k : κ} {sought sought' : Cells X → Prop}

theorem of_locks (h : s'.tx.locks = s.tx.locks) (hnone : ∀ c, ¬sought c) : LocksRows s k sought s' where
  rows j c := by
    rw [h]
    simp [hnone]
  scans j := by rw [h]

theorem lockRow (s : Session C) (k : κ) (c : Cells X) : LocksRows s k (· = c) (s.lockRow k c) where
  rows j := s.tx.locks.mem_rows_lockRow k j c
  scans j := s.tx.locks.scans_lockRow k j c

theorem trans (h : LocksRows s k sought s') (h' : LocksRows s' k sought' s'') :
    LocksRows s k (fun c => sought c ∨ sought' c) s'' where
  rows j c := by
    rw [h'.rows, h.rows, or_assoc, and_or_left]
  scans j := (h'.scans j).trans (h.scans j)

theorem congr (h : LocksRows s k sought s') (hsought : ∀ c, sought c ↔ sought' c) (hlocks : s''.tx.locks = s'.tx.locks) :
    LocksRows s k sought' s'' where
  rows j c := by
    rw [hlocks, h.rows, hsought]
  scans j := by rw [hlocks, h.scans]

theorem covers_iff (h : LocksRows s k sought s') (c : Cells X) :
    s'.tx.locks.covers k c = true ↔ s.tx.locks.covers k c = true ∨ sought c := by
  unfold Locks.covers TableLocks.covers
  rw [h.scans]
  simp only [Bool.or_eq_true, List.contains_iff_mem, h.rows, true_and, or_right_comm]

theorem lockIds (k : κ) : ∀ (ids : List (C k).Id) (s : Session C), (∀ id ∈ ids, (C k).Filled id) →
    LocksRows s k (fun c => ∃ id ∈ ids, (C k).flatten id = .ok c) (s.lockIds k ids).2
  | [], s, _ => of_locks rfl (by simp)
  | id :: rest, s, h => by
    obtain ⟨c, hc, hcomplete⟩ := h id List.mem_cons_self
    have hrest := lockIds k rest (s.lockRow k c) fun id' hid' => h id' (List.mem_cons_of_mem id hid')
    have hlocks : (s.lockIds k (id :: rest)).2.tx.locks = ((s.lockRow k c).lockIds k rest).2.tx.locks := by
      rw [Session.lockIds, hc]
      dsimp only
      rw [if_neg (by rw [hcomplete]; exact Bool.false_ne_true)]
      generalize (s.lockRow k c).lockIds k rest = r
      obtain ⟨answer, s'⟩ := r
      cases answer <;> rfl
    refine ((lockRow s k c).trans hrest).congr (fun d => ?_) hlocks
    simp only [List.mem_cons, exists_eq_or_imp, hc, Except.ok.injEq]
    exact or_congr_left eq_comm

end LocksRows

/-! ## What a transaction has under an identifier -/

/-- What the transaction has under an identifier: what its cache knows, or else what the load hook makes of the row. -/
def sight (s : Session C) (k : κ) (id : (C k).Id) : Option (C k).Entity :=
  match (s.tx.cache k).lookup id, (C k).flatten id with
  | some slot, _ => slot.entity?
  | none, .ok c => (s.row k c).map (C k).onLoad
  | none, .error _ => none

/-- The key is that of an identifier which the cache does not know. -/
def Seeks (s : Session C) (k : κ) (ids : List (C k).Id) (c : Cells X) : Prop :=
  ∃ id ∈ ids, (s.tx.cache k).lookup id = none ∧ (C k).flatten id = .ok c

/-- The identifiers can be read: the store is asked for none of them, or else the transaction is open, and if it has
applied a write then no key has changed, of those that are locked and of those that are sought. -/
def Answers (s : Session C) (k : κ) (ids : List (C k).Id) : Prop :=
  (∃ c, s.Seeks k ids c) → s.tx.closedBy = none ∧ (s.tx.hasWritten = true →
    ∀ c, s.tx.locks.covers k c = true ∨ s.Seeks k ids c → s.storage.isStale s.version k c = false)

/-- The cache, and in it what there is under those of the identifiers that it did not know. -/
structure Retains (s : Session C) (k : κ) (ids : List (C k).Id) (c : Cache (C k)) : Prop where
  enabled : c.enabled = (s.tx.cache k).enabled
  lookup : ∀ id, c.lookup id =
    if (s.tx.cache k).enabled = true ∧ id ∈ ids ∧ (s.tx.cache k).lookup id = none then some (.ofAnswer (s.sight k id))
    else (s.tx.cache k).lookup id

/-- **What a read of identifiers leaves behind.** -/
structure Acquires (s : Session C) (k : κ) (ids : List (C k).Id) (s' : Session C) : Prop where
  reads : Reads s s'
  locks : LocksRows s k (s.Seeks k ids) s'
  pinned : (∃ c, s.Seeks k ids c) → s'.tx.snapshot = some s.version
  unpinned : (¬∃ c, s.Seeks k ids c) → s'.tx.snapshot = s.tx.snapshot
  others : ∀ j, j ≠ k → s'.tx.cache j = s.tx.cache j
  retains : s.Retains k ids (s'.tx.cache k)

/-- The entities that there are under some identifiers, in canonical order. -/
structure Gathers (s : Session C) (k : κ) (ids : List (C k).Id) (es : List (C k).Entity) : Prop where
  distinct : (es.map (C k).idOf).Nodup
  sorted : es.Pairwise fun a b => (C k).NotAfter ((C k).idOf a) ((C k).idOf b)
  mem : ∀ e, e ∈ es ↔ (C k).idOf e ∈ ids ∧ s.sight k ((C k).idOf e) = some e

/-- What holds of all sessions of a repository. -/
structure IsOrderly (s : Session C) : Prop where
  storage : s.storage.Sound
  keyed : s.tx.closedBy = none → s.IsKeyed
  tidy : s.IsTidy

section

variable {s s' s₁ : Session C} {k : κ} {ids : List (C k).Id}

theorem IsOrderly.reads (h : s.IsOrderly) (hreads : Reads s s') (htidy : s'.IsTidy) : s'.IsOrderly where
  storage := hreads.storage ▸ h.storage
  keyed ho j c row hrow := h.keyed (hreads.closedBy ▸ ho) j c row ((hreads.row_eq j c).symm.trans hrow)
  tidy := htidy

theorem IsOrderly.openTable (h : s.IsOrderly) (k : κ) : (s.openTable k).IsOrderly :=
  h.reads (Reads.openTable s k) fun j => s.cache_openTable k j ▸ h.tidy j

theorem IsOrderly.find (h : s.IsOrderly) (k : κ) (id : (C k).Id) : (s.find k id).2.IsOrderly :=
  h.reads (Reads.find s k id) (h.tidy.find k id)

theorem answers_of_known (h : ∀ id ∈ ids, (s.tx.cache k).lookup id ≠ none) : s.Answers k ids :=
  fun ⟨_, id, hid, hunknown, _⟩ => absurd hunknown (h id hid)

theorem Answers.mono {ids' : List (C k).Id} (h : s.Answers k ids') (hsub : ∀ id ∈ ids, id ∈ ids') : s.Answers k ids := by
  have hseeks : ∀ c, s.Seeks k ids c → s.Seeks k ids' c := fun c ⟨id, hid, hunknown⟩ => ⟨id, hsub id hid, hunknown⟩
  intro ⟨c, hc⟩
  obtain ⟨ho, hfresh⟩ := h ⟨c, hseeks c hc⟩
  exact ⟨ho, fun hw d hd => hfresh hw d (hd.imp_right (hseeks d))⟩

theorem sight_of_known {id : (C k).Id} {slot : Slot (C k).Entity} (h : (s.tx.cache k).lookup id = some slot) :
    s.sight k id = slot.entity? := by
  unfold sight
  rw [h]

theorem sight_of_unknown {id : (C k).Id} (h : (s.tx.cache k).lookup id = none) {c : Cells X}
    (hc : (C k).flatten id = .ok c) : s.sight k id = (s.row k c).map (C k).onLoad := by
  unfold sight
  rw [h, hc]

theorem IsOrderly.idOf_sight (h : s.IsOrderly) (hload : Cache.KeepsIds (C k)) (hids : (C k).TellsApart)
    (hanswers : s.Answers k ids) {id : (C k).Id} (hid : id ∈ ids) (hfilled : (C k).Filled id) {e : (C k).Entity}
    (he : s.sight k id = some e) : (C k).idOf e = id := by
  cases hslot : (s.tx.cache k).lookup id with
  | some slot =>
    rw [sight_of_known hslot] at he
    cases slot with
    | present e' =>
      cases he
      exact h.tidy k id e hslot
    | tombstoned => cases he
    | absent => cases he
  | none =>
    obtain ⟨c, hc, hcomplete⟩ := hfilled
    rw [sight_of_unknown hslot hc] at he
    obtain ⟨row, hrow, rfl⟩ := Option.map_eq_some_iff.1 he
    have hkeyed := h.keyed (hanswers ⟨c, id, hid, hslot, hc⟩).1
    exact (hload row).trans (hids _ _ c (hkeyed k c row hrow) hc hcomplete)

/-! ## Reads add up -/

namespace Acquires

theorem of_known (hknown : ∀ id ∈ ids, (s.tx.cache k).lookup id ≠ none) (hreads : Reads s s')
    (hlocks : s'.tx.locks = s.tx.locks) (hsnapshot : s'.tx.snapshot = s.tx.snapshot)
    (hcache : ∀ j, s'.tx.cache j = s.tx.cache j) : s.Acquires k ids s' where
  reads := hreads
  locks := .of_locks hlocks fun _ ⟨id, hid, hunknown, _⟩ => hknown id hid hunknown
  pinned := fun ⟨_, id, hid, hunknown, _⟩ => absurd hunknown (hknown id hid)
  unpinned _ := hsnapshot
  others j _ := hcache j
  retains := by
    rw [hcache]
    exact ⟨rfl, fun id => (if_neg fun h => hknown id h.2.1 h.2.2).symm⟩

variable {ids' : List (C k).Id}

theorem lookup_of_not_mem (h : s.Acquires k ids s') {id : (C k).Id} (hid : id ∉ ids) :
    (s'.tx.cache k).lookup id = (s.tx.cache k).lookup id := by
  rw [h.retains.lookup, if_neg fun hall => hid hall.2.1]

theorem sight_of_not_mem (h : s.Acquires k ids s') {id : (C k).Id} (hid : id ∉ ids) : s'.sight k id = s.sight k id := by
  unfold sight
  rw [h.lookup_of_not_mem hid]
  simp only [h.reads.row_eq]

theorem seeks_iff (h : s.Acquires k ids s') (hdisjoint : ∀ id ∈ ids', id ∉ ids) (c : Cells X) :
    s'.Seeks k ids' c ↔ s.Seeks k ids' c :=
  exists_congr fun id => and_congr_right fun hid => by rw [h.lookup_of_not_mem (hdisjoint id hid)]

theorem seeks_append (s : Session C) (k : κ) (ids ids' : List (C k).Id) (c : Cells X) :
    s.Seeks k (ids ++ ids') c ↔ s.Seeks k ids c ∨ s.Seeks k ids' c := by
  unfold Seeks
  simp only [List.mem_append, or_and_right, exists_or]

theorem answers_iff (h : s.Acquires k ids s') (hanswers : s.Answers k ids) (hdisjoint : ∀ id ∈ ids', id ∉ ids) :
    s'.Answers k ids' ↔ s.Answers k (ids ++ ids') := by
  unfold Answers at hanswers ⊢
  simp only [h.seeks_iff hdisjoint, h.locks.covers_iff, h.reads.closedBy, h.reads.hasWritten, h.reads.storage,
    h.reads.version_eq, seeks_append, exists_or, or_assoc]
  constructor
  · rintro hnext (hseeks | hseeks)
    · -- if no more is sought, what was checked before is all that counts
      by_cases hmore : ∃ c, s.Seeks k ids' c
      · exact hnext hmore
      · refine ⟨(hanswers hseeks).1, fun hw c hc => (hanswers hseeks).2 hw c ?_⟩
        exact hc.imp_right fun hc => hc.resolve_right fun hc => hmore ⟨c, hc⟩
    · exact hnext hseeks
  · exact fun hall hseeks => hall (.inr hseeks)

/-- **One read after another leaves what a read of all identifiers leaves.** -/
theorem append (h : s.Acquires k ids s₁) (h' : s₁.Acquires k ids' s') (hdisjoint : ∀ id ∈ ids', id ∉ ids) :
    s.Acquires k (ids ++ ids') s' where
  reads := h.reads.trans h'.reads
  locks := (h.locks.trans h'.locks).congr (fun c => by rw [h.seeks_iff hdisjoint, seeks_append]) rfl
  pinned hseeks := by
    simp only [seeks_append, exists_or, ← h.seeks_iff hdisjoint] at hseeks
    by_cases hmore : ∃ c, s₁.Seeks k ids' c
    · exact (h'.pinned hmore).trans (congrArg some h.reads.version_eq)
    · exact (h'.unpinned hmore).trans (h.pinned (hseeks.resolve_right hmore))
  unpinned hnone := by
    simp only [seeks_append, exists_or, ← h.seeks_iff hdisjoint, not_or] at hnone
    exact (h'.unpinned hnone.2).trans (h.unpinned hnone.1)
  others j hj := (h'.others j hj).trans (h.others j hj)
  retains := by
    refine ⟨h'.retains.enabled.trans h.retains.enabled, fun id => ?_⟩
    rw [h'.retains.lookup, h.retains.enabled]
    by_cases hid : id ∈ ids'
    · rw [h.lookup_of_not_mem (hdisjoint id hid), h.sight_of_not_mem (hdisjoint id hid)]
      simp [hid]
    · rw [if_neg fun hall => hid hall.2.1, h.retains.lookup]
      simp [hid]

end Acquires

/-! ## Nothing comes of opening a table, nor of keeping a cache -/

theorem acquires_openTable (s : Session C) (k : κ) : s.Acquires k [] (s.openTable k) :=
  .of_known nofun (.openTable s k) (s.locks_openTable k) (s.snapshot_openTable k) (s.cache_openTable k)

theorem answers_openTable (s : Session C) (k : κ) (ids : List (C k).Id) :
    (s.openTable k).Answers k ids ↔ s.Answers k ids :=
  (acquires_openTable s k).answers_iff (answers_of_known nofun) fun _ _ => List.not_mem_nil

theorem sight_openTable (s : Session C) (k : κ) (id : (C k).Id) : (s.openTable k).sight k id = s.sight k id :=
  (acquires_openTable s k).sight_of_not_mem List.not_mem_nil

theorem Acquires.of_openTable (h : (s.openTable k).Acquires k ids s') : s.Acquires k ids s' :=
  (acquires_openTable s k).append h fun _ _ => List.not_mem_nil

theorem cache_setCache_self (s : Session C) (k j : κ) :
    (s.setCache k (s.tx.cache k)).tx.cache j = s.tx.cache j := by
  refine (s.tx.cache_setCache k j _).trans ?_
  split
  · rename_i hj
    subst hj
    rfl
  · rfl

/-! ## A read of what is sought -/

/-- Once the rows that are sought are locked, a read of the store is answered exactly if the identifiers can be read. -/
theorem answers_iff_of_locked (hs : s.storage.Sound) (hreads : Reads s s₁) (hlocks : LocksRows s k (s.Seeks k ids) s₁)
    (hsought : ∃ c, s.Seeks k ids c) : s.Answers k ids ↔ s₁.tx.closedBy = none ∧ s₁.pin.conflict? k = none := by
  unfold Answers
  rw [hreads.closedBy, imp_iff_right hsought]
  refine and_congr_right fun ho => ?_
  have hconflict := exists_conflict?_iff (s := s₁.pin) (hreads.closedBy.trans ho) (hreads.storage ▸ hs) k
  have hnone : s₁.pin.conflict? k = none ↔ ¬∃ e, s₁.pin.conflict? k = some e := by
    rw [← Option.ne_none_iff_exists', not_not]
  have hclash : s₁.pin.Clash k s₁.pin.tx.locks ↔ s.tx.hasWritten = true ∧
      ∃ c, (s.tx.locks.covers k c = true ∨ s.Seeks k ids c) ∧ s.storage.isStale s.version k c = true := by
    show s₁.tx.closedBy = none ∧ s₁.tx.hasWritten = true ∧
      (∃ c, s₁.tx.locks.covers k c = true ∧ s₁.storage.isStale s₁.version k c = true) ↔ _
    simp only [hlocks.covers_iff, hreads.closedBy, hreads.hasWritten, hreads.storage, hreads.version_eq, ho, true_and]
  rw [hnone, hconflict, hclash, not_and]
  simp only [not_exists, not_and, Bool.not_eq_true]

/-- **A read of the store with the sought rows locked** is answered if they can be read, and leaves what it should once
the cache retains the answer. -/
theorem read_cases_of_locked {α : Type} (action : String) (summary : α → String)
    (f : Option (Shard (C k)) → Nat → Except Error α) {a : α} (hs : s.storage.Sound) (hreads : Reads s s₁)
    (hlocks : LocksRows s k (s.Seeks k ids) s₁) (hcaches : s₁.tx.caches = s.tx.caches)
    (hsought : ∃ c, s.Seeks k ids c) (hf : f (s₁.storage.shard? k) s₁.version = .ok a) :
    let r := s₁.read k action summary f
    (s.Answers k ids ∧ r.1 = .ok a ∧ r.2.tx.cache k = s.tx.cache k ∧
      ∀ c, s.Retains k ids c → s.Acquires k ids (r.2.setCache k c)) ∨
    (¬s.Answers k ids ∧ ∃ e, r.1 = .error e) := by
  intro r
  have hanswers := answers_iff_of_locked hs hreads hlocks hsought
  have hread : Reads s r.2 := hreads.trans (Reads.read s₁ k action summary f)
  have hcache := cache_of_caches ((caches_read s₁ k action summary f).trans hcaches) hread.options
  rcases s₁.read_cases k action summary f with ⟨_, hclosed, he⟩ | ⟨-, _, hconflict, he⟩ | ⟨ho, hnone, he⟩
  · refine .inr ⟨fun hall => ?_, _, congrArg Prod.fst he⟩
    rw [(hanswers.1 hall).1] at hclosed
    cases hclosed
  · refine .inr ⟨fun hall => ?_, _, congrArg Prod.fst he⟩
    rw [(hanswers.1 hall).2] at hconflict
    cases hconflict
  · refine .inl ⟨hanswers.2 ⟨ho, hnone⟩, (congrArg Prod.fst he).trans hf, hcache k, fun c hc => ?_⟩
    have hset : ∀ j, (r.2.setCache k c).tx.cache j = _ := fun j => r.2.tx.cache_setCache k j c
    refine ⟨hread.trans (.setCache ..), hlocks.congr (fun _ => Iff.rfl) (locks_read ..), fun _ => ?_,
      fun hno => absurd hsought hno, fun j hj => ?_, ?_⟩
    · exact (snapshot_read ho ..).trans (congrArg some hreads.version_eq)
    · rw [hset, dif_neg hj.symm]
      exact hcache j
    · rw [hset, dif_pos rfl]
      exact hc

/-! ## A point read -/

variable (hload : Cache.KeepsIds (C k)) (hids : (C k).TellsApart)

include hload hids

theorem findUnknown_cases (h : s.IsOrderly) {id : (C k).Id} (hslot : (s.tx.cache k).lookup id = none) {c : Cells X}
    (hc : (C k).flatten id = .ok c) (hcomplete : Cells.isPartial c = false) :
    (s.Answers k [id] ∧ (s.findUnknown k id c).1 = .ok (s.sight k id) ∧ s.Acquires k [id] (s.findUnknown k id c).2) ∨
      (¬s.Answers k [id] ∧ ∃ e, (s.findUnknown k id c).1 = .error e) := by
  have hseeks : ∀ d, d = c ↔ s.Seeks k [id] d := by
    intro d
    simp [Seeks, hslot, hc, eq_comm]
  have hcases := read_cases_of_locked s!"find({(C k).idText id})" (rowText k)
    (fun shard v => .ok (shard.bind (fun shard => shard.read (s.lockRow k c).tx.id v c))) (a := s.row k c) h.storage
    (Reads.lockRow s k c) ((LocksRows.lockRow s k c).congr hseeks rfl) rfl ⟨c, (hseeks c).1 rfl⟩ rfl
  unfold findUnknown
  dsimp only at hcases ⊢
  generalize (s.lockRow k c).read k s!"find({(C k).idText id})" (rowText k)
    (fun shard v => .ok (shard.bind (fun shard => shard.read (s.lockRow k c).tx.id v c))) = r at hcases
  obtain ⟨answer, s'⟩ := r
  rcases hcases with ⟨hanswers, hanswer, hcache, hacquires⟩ | ⟨hno, e, he⟩
  · cases hanswer
    dsimp only at hcache hacquires ⊢
    rw [hcache, ← sight_of_unknown hslot hc]
    refine .inl ⟨hanswers, rfl, hacquires _ ⟨((s.tx.cache k).learns_settle id _).extends.enabled, fun id' => ?_⟩⟩
    have hown := fun e => h.idOf_sight (e := e) hload hids hanswers List.mem_cons_self ⟨c, hc, hcomplete⟩
    rw [Cache.lookup_settle _ hown]
    by_cases hid : id = id'
    · subst hid
      simp [hslot]
    · simp [hid, Ne.symm hid]
  · cases he
    exact .inr ⟨hno, e, rfl⟩

/-- **A point read gives what there is under the identifier**, or else it fails. -/
theorem find_cases (h : s.IsOrderly) {id : (C k).Id} (hfilled : (C k).Filled id) :
    (s.Answers k [id] ∧ (s.find k id).1 = .ok (s.sight k id) ∧ s.Acquires k [id] (s.find k id).2) ∨
      (¬s.Answers k [id] ∧ ∃ e, (s.find k id).1 = .error e) := by
  obtain ⟨c, hc, hcomplete⟩ := hfilled
  have hfind : s.find k id = if (s.tx.cache k).contains id then ((s.tx.cache k).peek id, s) else s.findUnknown k id c := by
    unfold find
    rw [hc]
    dsimp only
    rw [if_neg (by rw [hcomplete]; exact Bool.false_ne_true)]
  rw [hfind]
  cases hslot : (s.tx.cache k).lookup id with
  | some slot =>
    have hknown : ∀ id' ∈ [id], (s.tx.cache k).lookup id' ≠ none := by simp [hslot]
    have hpeek : (s.tx.cache k).peek id = .ok (s.sight k id) := by
      unfold Cache.peek
      rw [hslot, sight_of_known hslot]
    rw [if_pos (by simp [Cache.contains, hslot])]
    exact .inl ⟨answers_of_known hknown, hpeek, .of_known hknown (.refl s) rfl rfl fun _ => rfl⟩
  | none =>
    rw [if_neg (by simp [Cache.contains, hslot])]
    exact findUnknown_cases hload hids h hslot hc hcomplete

/-- **A run of point reads gives what there is under each identifier**, or else one of them fails. -/
theorem findEach_cases : ∀ {order : List (C k).Id} {s : Session C}, s.IsOrderly → order.Nodup →
    (∀ id ∈ order, (C k).Filled id) →
      (s.Answers k order ∧ ((Work.findEach k order).run s).1 = .ok (order.map (s.sight k)) ∧
        s.Acquires k order ((Work.findEach k order).run s).2) ∨
      (¬s.Answers k order ∧ ∃ e, ((Work.findEach k order).run s).1 = .error e)
  | [], s, _, _, _ => .inl ⟨answers_of_known nofun, rfl, .of_known nofun (.refl s) rfl rfl fun _ => rfl⟩
  | id :: rest, s, h, hnodup, hfilled => by
    obtain ⟨hid, hrest⟩ := List.nodup_cons.1 hnodup
    obtain ⟨hfirst, hothers⟩ := List.forall_mem_cons.1 hfilled
    have hdisjoint : ∀ id' ∈ rest, id' ∉ [id] := fun id' hid' hone => hid (List.mem_singleton.1 hone ▸ hid')
    have hfind := find_cases hload hids (h.openTable k) hfirst
    rw [answers_openTable, sight_openTable] at hfind
    rcases hfind with ⟨hanswers, hanswer, hone⟩ | ⟨hno, e, he⟩
    · have hone := hone.of_openTable
      have hmore := hone.answers_iff hanswers hdisjoint
      have hsights := List.map_congr_left fun id' hid' => hone.sight_of_not_mem (hdisjoint id' hid')
      rw [Work.run_findEach_of_ok hanswer]
      rcases findEach_cases ((h.openTable k).find k id) hrest hothers with ⟨hall, hfound, hrun⟩ | ⟨hno, e, he⟩
      · refine .inl ⟨hmore.1 hall, ?_, hone.append hrun hdisjoint⟩
        rw [hfound, hsights]
        rfl
      · refine .inr ⟨fun hall => hno (hmore.2 hall), e, ?_⟩
        rw [he]
        rfl
    · rw [Work.run_findEach_of_error he]
      refine .inr ⟨fun hall => hno (hall.mono fun id' hid' => ?_), e, rfl⟩
      exact List.mem_cons.2 (.inl (List.mem_singleton.1 hid'))

/-! ## A read of a set -/

section

variable (h : s.IsOrderly) (hanswers : s.Answers k ids) (hfilled : ∀ id ∈ ids, (C k).Filled id)
  {rows : List (C k).Entity} (hrows : ∀ row, row ∈ rows ↔ ∃ c, s.Seeks k ids c ∧ s.row k c = some row)

include h hanswers hfilled hrows

omit hload

theorem rowFor_of_mem {id : (C k).Id} (hid : id ∈ ids) (hslot : (s.tx.cache k).lookup id = none) {c : Cells X}
    (hc : (C k).flatten id = .ok c) : (s.tx.cache k).rowFor rows id = s.row k c := by
  have hseeks : s.Seeks k ids c := ⟨id, hid, hslot, hc⟩
  have hkeyed := h.keyed (hanswers ⟨c, hseeks⟩).1 k
  cases hfor : (s.tx.cache k).rowFor rows id with
  | some row =>
    obtain ⟨hrow, rfl⟩ := Cache.mem_of_rowFor hfor
    obtain ⟨d, -, hd⟩ := (hrows row).1 hrow
    rw [hkeyed d row hd] at hc
    cases hc
    exact hd.symm
  | none =>
    cases hsees : s.row k c with
    | none => rfl
    | some row =>
      have hrow : row ∈ rows := (hrows row).2 ⟨c, hseeks, hsees⟩
      have hown := hids _ _ c (hkeyed c row hsees) hc ((hfilled id hid).isComplete c hc)
      have hnone := ((s.tx.cache k).rowFor_eq_none_iff rows id).1 hfor
      exact absurd (decide_eq_true hown) (List.any_eq_false.1 hnone row hrow)

theorem mem_of_row {row : (C k).Entity} (hrow : row ∈ rows) : (C k).idOf row ∈ ids := by
  obtain ⟨c, hseeks, hsees⟩ := (hrows row).1 hrow
  have hkeyed := h.keyed (hanswers ⟨c, hseeks⟩).1 k
  obtain ⟨id, hid, -, hc⟩ := hseeks
  exact hids _ _ c (hkeyed c row hsees) hc ((hfilled id hid).isComplete c hc) ▸ hid

theorem fate_eq_sight {id : (C k).Id} (hid : id ∈ ids) : (s.tx.cache k).fate rows id = s.sight k id := by
  unfold Cache.fate
  cases hslot : (s.tx.cache k).lookup id with
  | some slot => exact (sight_of_known hslot).symm
  | none =>
    obtain ⟨c, hc, -⟩ := hfilled id hid
    rw [sight_of_unknown hslot hc]
    exact congrArg (Option.map (C k).onLoad) (rowFor_of_mem hids h hanswers hfilled hrows hid hslot hc)

theorem learnt_eq (id : (C k).Id) : (s.tx.cache k).learnt false ids rows id =
    if id ∈ ids ∧ (s.tx.cache k).lookup id = none then some (.ofAnswer (s.sight k id))
    else (s.tx.cache k).lookup id := by
  unfold Cache.learnt
  cases hslot : (s.tx.cache k).lookup id with
  | some slot => simp
  | none =>
    by_cases hid : id ∈ ids
    · obtain ⟨c, hc, -⟩ := hfilled id hid
      rw [rowFor_of_mem hids h hanswers hfilled hrows hid hslot hc, sight_of_unknown hslot hc]
      cases s.row k c <;> simp [hid, Slot.ofAnswer]
    · have hnone : (s.tx.cache k).rowFor rows id = none := by
        refine ((s.tx.cache k).rowFor_eq_none_iff rows id).2 (List.any_eq_false.2 fun row hrow heq => hid ?_)
        exact of_decide_eq_true heq ▸ mem_of_row hids h hanswers hfilled hrows hrow
      rw [hnone]
      simp [hid]

include hload

/-- **The merge with the cache gives what there is under the identifiers, and the cache retains it.** -/
theorem gathers_mergeAnswer (hne : ids ≠ []) :
    (∃ es, ((s.tx.cache k).mergeAnswer ids false (.ok rows)).1 = .ok es ∧ s.Gathers k ids es) ∧
      s.Retains k ids ((s.tx.cache k).mergeAnswer ids false (.ok rows)).2 := by
  constructor
  · have hforms : ∀ row ∈ rows, ∃ p, (C k).flatten ((C k).idOf row) = .ok p := by
      intro row hrow
      obtain ⟨c, hc, -⟩ := hfilled _ (mem_of_row hids h hanswers hfilled hrows hrow)
      exact ⟨c, hc⟩
    obtain ⟨es, hes, hdistinct, hsorted, hmem⟩ := Cache.lists_mergeAnswer (h.tidy k) hload hne
      (fun id hid => (hfilled id hid).imp fun _ => And.left) hforms false
    refine ⟨es, hes, hdistinct, hsorted, fun e => (hmem e).trans ?_⟩
    have hasked : ((C k).idOf e ∈ ids ∨ ∃ row ∈ rows, (C k).idOf row = (C k).idOf e) ↔ (C k).idOf e ∈ ids := by
      refine or_iff_left_of_imp fun ⟨row, hrow, hid⟩ => ?_
      exact hid ▸ mem_of_row hids h hanswers hfilled hrows hrow
    rw [hasked]
    exact and_congr_right fun hid => by rw [fate_eq_sight hids h hanswers hfilled hrows hid]
  · have hlearns : Cache.Learns (s.tx.cache k) ((s.tx.cache k).mergeAnswer ids false (.ok rows)).2 :=
      (Cache.learns_absorbRows rows _ _).trans (Cache.learns_noteMissing rows _ _)
    refine ⟨hlearns.extends.enabled, fun id => ?_⟩
    cases henabled : (s.tx.cache k).enabled with
    | true =>
      rw [Cache.lookup_mergeAnswer hload henabled, learnt_eq hids h hanswers hfilled hrows]
      simp
    | false =>
      rw [hlearns.eq_of_disabled henabled]
      simp

end

omit hload hids in
theorem findUncached_cases (h : s.IsOrderly) (hfilled : ∀ id ∈ ids, (C k).Filled id) {wanted : List (C k).Id}
    (hne : wanted ≠ []) (hwanted : ∀ id, id ∈ wanted ↔ id ∈ ids ∧ (s.tx.cache k).lookup id = none) :
    (s.Answers k ids ∧ (∃ rows, (s.findUncached k wanted).1 = .ok rows ∧
        ∀ row, row ∈ rows ↔ ∃ c, s.Seeks k ids c ∧ s.row k c = some row) ∧
      ∀ c, s.Retains k ids c → s.Acquires k ids ((s.findUncached k wanted).2.setCache k c)) ∨
    (¬s.Answers k ids ∧ ∃ e, (s.findUncached k wanted).1 = .error e) := by
  have hfull : ∀ id ∈ wanted.eraseDups, (C k).Filled id :=
    fun id hid => hfilled id ((hwanted id).1 (List.mem_eraseDups.1 hid)).1
  have hseeks : ∀ d, (∃ id ∈ wanted.eraseDups, (C k).flatten id = .ok d) ↔ s.Seeks k ids d := by
    intro d
    simp only [List.mem_eraseDups, hwanted, Seeks, and_assoc]
  obtain ⟨first, hfirst⟩ := List.exists_mem_of_ne_nil wanted hne
  obtain ⟨c, hc, -⟩ := hfull first (List.mem_eraseDups.2 hfirst)
  obtain ⟨schema, hschema, -⟩ := EntityType.length_of_flatten hc
  obtain ⟨keys, hkeys⟩ := exists_keys_of_lockIds k wanted.eraseDups s fun id hid => (hfull id hid).imp fun _ => And.left
  have hreads := Reads.lockIds k wanted.eraseDups s
  have hcomplete : ∀ d ∈ keys, Cells.isPartial d = false := by
    intro d hd
    obtain ⟨id, hid, hd⟩ := (keys_of_lockIds k wanted.eraseDups hkeys).2 d hd
    exact (hfull id hid).isComplete d hd
  -- complete identifiers are never too many, so that only a conflict or a closed transaction stops the read
  obtain ⟨rows, hrows⟩ := pickKeys_of_complete s.tx k (s.row k) (s.rows k) hcomplete
  obtain ⟨action, f, hread, hf⟩ : ∃ action f,
      s.findUncached k wanted = (s.lockIds k wanted.eraseDups).2.read k action (rowsText k) f ∧
        f ((s.lockIds k wanted.eraseDups).2.storage.shard? k) (s.lockIds k wanted.eraseDups).2.version = .ok rows :=
    ⟨_, _, findUncached_eq_read hschema hkeys, (hreads.rowsOfKeys_eq keys).trans hrows⟩
  have hasked := asked_of_ne (s := s) hne
  rw [hread] at hasked ⊢
  rcases read_cases_of_locked action (rowsText k) f h.storage hreads
      ((LocksRows.lockIds k wanted.eraseDups s hfull).congr hseeks rfl) (caches_lockIds k wanted.eraseDups s)
      ⟨c, (hseeks c).1 ⟨first, List.mem_eraseDups.2 hfirst, hc⟩⟩ hf with ⟨hanswers, hanswer, -, hacquires⟩ | hfails
  · refine .inl ⟨hanswers, ⟨rows, hanswer, fun row => ?_⟩, hacquires⟩
    have hwants : ∀ id ∈ wanted, ∀ p, (C k).flatten id = .ok p → ∀ d, Cells.Wants p d ↔ p = d := by
      intro id hid p hp d
      have hcomplete := (hfull id (List.mem_eraseDups.2 hid)).isComplete p hp
      rw [Cells.Wants, if_neg (by rw [hcomplete]; exact Bool.false_ne_true)]
    rw [mem_asked_iff h.storage (hasked.trans hanswer)]
    constructor
    · rintro ⟨id, hid, p, hp, d, hd, hrow⟩
      cases (hwants id hid p hp d).1 hd
      exact ⟨p, (hseeks p).1 ⟨id, List.mem_eraseDups.2 hid, hp⟩, hrow⟩
    · rintro ⟨d, hd, hrow⟩
      obtain ⟨id, hid, hd⟩ := (hseeks d).2 hd
      have hid := List.mem_eraseDups.1 hid
      exact ⟨id, hid, d, hd, d, (hwants id hid d hd d).2 rfl, hrow⟩
  · exact .inr hfails

/-- **A read of a set gives what there is under its identifiers, in canonical order**, or else it fails. -/
theorem findMany_cases (h : s.IsOrderly) (hfilled : ∀ id ∈ ids, (C k).Filled id) :
    (s.Answers k ids ∧ (∃ es, (s.findMany k ids).1 = .ok es ∧ s.Gathers k ids es) ∧
      s.Acquires k ids (s.findMany k ids).2) ∨
    (¬s.Answers k ids ∧ ∃ e, (s.findMany k ids).1 = .error e) := by
  have hcache := s.cache_setCache_self k
  by_cases hne : ids = []
  · subst hne
    refine .inl ⟨answers_of_known (List.forall_mem_nil _), ⟨[], rfl, List.nodup_nil, .nil, by simp⟩, ?_⟩
    exact .of_known (List.forall_mem_nil _) (.findMany s k []) rfl rfl hcache
  have hwanted := (s.tx.cache k).mem_unknown_iff ids
  rw [findMany_eq_merge, Cache.merge_eq _ hne (Cache.arePartial_of_complete hne hfilled)]
  dsimp only
  by_cases hall : (s.tx.cache k).unknown ids.eraseDups = []
  · -- nobody is asked
    have hknown : ∀ id ∈ ids, (s.tx.cache k).lookup id ≠ none := by
      intro id hid hslot
      have hmem := (hwanted id).2 ⟨hid, hslot⟩
      rw [hall] at hmem
      cases hmem
    have hanswers := answers_of_known hknown
    have hnone : ∀ row, row ∈ ([] : List (C k).Entity) ↔ ∃ c, s.Seeks k ids c ∧ s.row k c = some row := by
      refine fun row => iff_of_false List.not_mem_nil ?_
      rintro ⟨_, ⟨id, hid, hunknown, -⟩, -⟩
      exact hknown id hid hunknown
    have hsame : ((s.tx.cache k).mergeAnswer ids false (.ok [])).2 = s.tx.cache k := by
      unfold Cache.mergeAnswer
      rw [hall]
      rfl
    rw [if_pos hall]
    refine .inl ⟨hanswers, (gathers_mergeAnswer hload hids h hanswers hfilled hnone hne).1, ?_⟩
    rw [hsame]
    exact .of_known hknown (.setCache s k _) rfl rfl hcache
  · rw [if_neg hall]
    rcases findUncached_cases h hfilled hall hwanted with ⟨hanswers, ⟨rows, hrows, hmem⟩, hacquires⟩ | ⟨hno, e, he⟩
    · obtain ⟨hgathers, hretains⟩ := gathers_mergeAnswer hload hids h hanswers hfilled hmem hne
      rw [hrows]
      exact .inl ⟨hanswers, hgathers, hacquires _ hretains⟩
    · rw [he]
      exact .inr ⟨hno, e, rfl⟩

end

/-! ## Both ways -/

/-- The two have the same in their caches, the same locks and the same snapshot. -/
structure Coincides (s s' : Session C) : Prop where
  enabled : ∀ k, (s.tx.cache k).enabled = (s'.tx.cache k).enabled
  lookup : ∀ k id, (s.tx.cache k).lookup id = (s'.tx.cache k).lookup id
  rows : ∀ k c, c ∈ (s.tx.locks.on k).rows ↔ c ∈ (s'.tx.locks.on k).rows
  scans : ∀ k, (s.tx.locks.on k).scans = (s'.tx.locks.on k).scans
  snapshot : s.tx.snapshot = s'.tx.snapshot

section

variable {s s₁ s₂ : Session C} {k : κ} {ids ids' : List (C k).Id}

theorem Acquires.coincides (h : s.Acquires k ids s₁) (h' : s.Acquires k ids' s₂) (hsame : ∀ id, id ∈ ids' ↔ id ∈ ids) :
    s₁.Coincides s₂ := by
  have hseeks : ∀ c, s.Seeks k ids' c ↔ s.Seeks k ids c := fun c => exists_congr fun id => and_congr_left' (hsame id)
  have hcache : ∀ j, (s₁.tx.cache j).enabled = (s₂.tx.cache j).enabled ∧
      ∀ id, (s₁.tx.cache j).lookup id = (s₂.tx.cache j).lookup id := by
    intro j
    by_cases hj : j = k
    · subst hj
      refine ⟨h.retains.enabled.trans h'.retains.enabled.symm, fun id => ?_⟩
      simp only [h.retains.lookup, h'.retains.lookup, hsame]
    · rw [h.others j hj, h'.others j hj]
      exact ⟨rfl, fun _ => rfl⟩
  refine ⟨fun j => (hcache j).1, fun j => (hcache j).2, fun j c => ?_, fun j => ?_, ?_⟩
  · rw [h.locks.rows, h'.locks.rows, hseeks]
  · rw [h.locks.scans, h'.locks.scans]
  · by_cases hsought : ∃ c, s.Seeks k ids c
    · rw [h.pinned hsought, h'.pinned (by simpa only [hseeks] using hsought)]
    · rw [h.unpinned hsought, h'.unpinned (by simpa only [hseeks] using hsought)]

theorem Gathers.perm {es : List (C k).Entity} (h : s.Gathers k ids es) {order : List (C k).Id} (hnodup : order.Nodup)
    (horder : ∀ id, id ∈ order ↔ id ∈ ids) (hown : ∀ id ∈ order, ∀ e, s.sight k id = some e → (C k).idOf e = id) :
    es.Perm (order.map (s.sight k)).reduceOption := by
  have hfound : (order.filterMap (s.sight k)).Nodup := by
    rw [List.nodup_iff_pairwise_ne, List.pairwise_filterMap]
    refine (List.nodup_iff_pairwise_ne.1 hnodup).imp_of_mem fun {i j} hi hj hij e he e' he' hee => ?_
    subst hee
    exact hij ((hown i hi e he).symm.trans (hown j hj e he'))
  have hdistinct : es.Nodup := List.Pairwise.of_map (C k).idOf (fun _ _ hne he => hne (congrArg _ he)) h.distinct
  have hreduce : (order.map (s.sight k)).reduceOption = order.filterMap (s.sight k) := List.filterMap_map
  rw [hreduce]
  refine (List.perm_ext_iff_of_nodup hdistinct hfound).2 fun e => ?_
  rw [h.mem, List.mem_filterMap]
  constructor
  · rintro ⟨hid, he⟩
    exact ⟨(C k).idOf e, (horder _).2 hid, he⟩
  · rintro ⟨id, hid, he⟩
    cases hown id hid e he
    exact ⟨(horder _).1 hid, he⟩

/-- **A read of a set and the point reads of its identifiers agree**, or else both fail. -/
theorem findMany_findEach_cases (h : s.IsOrderly) (hload : Cache.KeepsIds (C k)) (hids : (C k).TellsApart)
    (hfilled : ∀ id ∈ ids, (C k).Filled id) {order : List (C k).Id} (hnodup : order.Nodup)
    (horder : ∀ id, id ∈ order ↔ id ∈ ids) :
    let batch := (s.openTable k).findMany k ids
    let each := (Work.findEach k order).run s
    (∃ es found, batch.1 = .ok es ∧ each.1 = .ok found ∧ es.Perm found.reduceOption ∧
      es.Pairwise (fun a b => (C k).compareIds ((C k).idOf a) ((C k).idOf b) = .ok .lt) ∧ batch.2.Coincides each.2) ∨
    ((∃ e, batch.1 = .error e) ∧ ∃ e, each.1 = .error e) := by
  intro batch each
  have hsame : s.Answers k order ↔ s.Answers k ids :=
    ⟨fun ha => ha.mono fun id => (horder id).2, fun ha => ha.mono fun id => (horder id).1⟩
  have heach := findEach_cases hload hids h hnodup fun id hid => hfilled id ((horder id).1 hid)
  have hbatch := findMany_cases hload hids (h.openTable k) hfilled
  rw [answers_openTable] at hbatch
  rw [hsame] at heach
  rcases hbatch with ⟨hanswers, ⟨es, hes, hgathers⟩, hbatch⟩ | ⟨hno, he⟩
  · obtain ⟨-, hfound, hrun⟩ := heach.resolve_right fun hno => hno.1 hanswers
    refine .inl ⟨es, _, hes, hfound, ?_, ?_, hbatch.of_openTable.coincides hrun horder⟩
    · rw [← funext (s.sight_openTable k)]
      refine hgathers.perm hnodup horder fun id hid e he => ?_
      rw [sight_openTable] at he
      exact h.idOf_sight hload hids hanswers ((horder id).1 hid) (hfilled id ((horder id).1 hid)) he
    · have hmembers : ∀ e ∈ es, (C k).Filled ((C k).idOf e) := fun e he => hfilled _ ((hgathers.mem e).1 he).1
      exact EntityType.pairwise_lt hids hmembers hgathers.distinct hgathers.sorted
  · exact .inr ⟨he, (heach.resolve_left fun ha => hno ha.1).2⟩

theorem forms_of_findMany {es : List (C k).Entity} (h : (s.findMany k ids).1 = .ok es) :
    ∀ id ∈ ids, ∃ c, (C k).flatten id = .ok c := by
  intro id hid
  rw [s.fst_findMany_eq (List.ne_nil_of_mem hid)] at h
  cases hpartial : Cache.arePartial (E := C k) ids.eraseDups with
  | error e =>
    rw [hpartial] at h
    cases h
  | ok isPartial =>
    exact (Cache.flatten_of_arePartial hpartial id (List.mem_eraseDups.2 hid)).imp fun _ => And.left

theorem forms_of_find {id : (C k).Id} {found : Option (C k).Entity} (h : (s.find k id).1 = .ok found) :
    ∃ c, (C k).flatten id = .ok c := by
  unfold find at h
  split at h
  · cases h
  · exact ⟨_, ‹_›⟩

theorem forms_of_findEach {order : List (C k).Id} {found : List (Option (C k).Entity)}
    (h : ((Work.findEach k order).run s).1 = .ok found) : ∀ id ∈ order, ∃ c, (C k).flatten id = .ok c := by
  induction order generalizing s found with
  | nil => exact nofun
  | cons id rest ih =>
    cases hfirst : ((s.openTable k).find k id).1 with
    | error e =>
      rw [Work.run_findEach_of_error hfirst] at h
      cases h
    | ok first =>
      rw [Work.run_findEach_of_ok hfirst] at h
      cases hrest : ((Work.findEach k rest).run ((s.openTable k).find k id).2).1 with
      | error e =>
        rw [hrest] at h
        cases h
      | ok more => exact List.forall_mem_cons.2 ⟨forms_of_find hfirst, ih hrest⟩

end

end Session

namespace Repository

theorem isOrderly_session (as : List (Action C)) {id : TxId} {s : Session C}
    (hs : (({} : Repository C).after as).session? id = some s) : s.IsOrderly where
  storage := ((sound_after sound_empty as).session id s hs).2.2.2.storage
  keyed ho := isKeyed_session as hs ho
  tidy := isTidy_session as hs

/-- **A set is read as its identifiers are one by one.**  Let load hooks keep identifiers, and distinct complete
identifiers have distinct flat forms.  Then a transaction can read a set of complete identifiers exactly if it can read
each of them, one after another in any order.  The answer to the set is what the others found, in canonical order; and
both leave the same in the caches, the same locks and the same snapshot. -/
theorem batch_reads_agree (as : List (Action C)) (id : TxId) (s : Session C)
    (hs : (({} : Repository C).after as).session? id = some s) (k : κ) (hload : Cache.KeepsIds (C k))
    (hids : (C k).TellsApart) (ids order : List (C k).Id) (hcomplete : ∀ i ∈ ids, (C k).IsComplete i)
    (hnodup : order.Nodup) (horder : ∀ i, i ∈ order ↔ i ∈ ids) :
    let batch := (TableOp.findMany k ids).run s
    let each := (Work.findEach k order).run s
    ((∃ es : List (C k).Entity, batch.1 = .ok es) ↔ ∃ found, each.1 = .ok found) ∧
      ∀ (es : List (C k).Entity) found, batch.1 = .ok es → each.1 = .ok found →
        es.Perm found.reduceOption ∧
          es.Pairwise (fun a b => (C k).compareIds ((C k).idOf a) ((C k).idOf b) = .ok .lt) ∧
          batch.2.Coincides each.2 := by
  intro batch each
  have hcases : (∀ i ∈ ids, ∃ c, (C k).flatten i = .ok c) → _ := fun hforms =>
    Session.findMany_findEach_cases (isOrderly_session as hs) hload hids
      (fun i hi => (hforms i hi).imp fun c hc => ⟨hc, hcomplete i hi c hc⟩) hnodup horder
  have hforms : ∀ {found}, each.1 = .ok found → ∀ i ∈ ids, ∃ c, (C k).flatten i = .ok c :=
    fun hfound i hi => Session.forms_of_findEach hfound i ((horder i).2 hi)
  refine ⟨⟨fun ⟨es, hes⟩ => ?_, fun ⟨found, hfound⟩ => ?_⟩, fun es found hes hfound => ?_⟩
  · rcases hcases (Session.forms_of_findMany hes) with ⟨_, found, -, hfound, -⟩ | ⟨⟨e, he⟩, -⟩
    · exact ⟨found, hfound⟩
    · cases hes.symm.trans he
  · rcases hcases (hforms hfound) with ⟨es, _, hes, -⟩ | ⟨-, e, he⟩
    · exact ⟨es, hes⟩
    · cases hfound.symm.trans he
  · rcases hcases (hforms hfound) with ⟨es', found', hes', hfound', hagree⟩ | ⟨-, e, he⟩
    · cases hes.symm.trans hes'
      cases hfound.symm.trans hfound'
      exact hagree
    · cases hfound.symm.trans he

end Repository

namespace Sample

/-- Two accounts are published; another transaction reads the first of them. -/
def readingOne : List (Action marked) :=
  [.start {}, .statement 1 (.save () (Account.mk ⟨"first"⟩ "" 100)),
    .statement 1 (.save () (Account.mk ⟨"second"⟩ "" 200)), .commit 1,
    .start {}, .statement 2 (.find () (AccountId.mk "first"))]

end Sample

open Sample in
theorem Repository.batch_reads_agree_reading_one :
    let r := ({} : Repository marked).after readingOne
    let ids : List AccountId := [⟨"first"⟩, ⟨"second"⟩, ⟨"third"⟩]
    ∃ (s : Session marked) (es : List Account), r.session? 2 = some s ∧
      ((TableOp.findMany (C := marked) () ids).run s).1 = .ok es ∧
      ((Work.findEach (C := marked) () ids.reverse).run s).1 =
        .ok [none, some ⟨⟨"second"⟩, "", 211⟩, some ⟨⟨"first"⟩, "", 111⟩] ∧
      es.Perm [⟨⟨"second"⟩, "", 211⟩, ⟨⟨"first"⟩, "", 111⟩] ∧
      ((TableOp.findMany (C := marked) () ids).run s).2.Coincides
        ((Work.findEach (C := marked) () ids.reverse).run s).2 := by
  intro r ids
  obtain ⟨s, hs⟩ : ∃ s, r.session? 2 = some s := ⟨_, rfl⟩
  have heach : ((Work.findEach (C := marked) () ids.reverse).run s).1 =
      .ok [none, some ⟨⟨"second"⟩, "", 211⟩, some ⟨⟨"first"⟩, "", 111⟩] := by
    cases hs
    rfl
  have hnodup : ids.reverse.Nodup := by simp [ids]
  obtain ⟨hsucceeds, hagree⟩ := batch_reads_agree readingOne 2 s hs () (wellIdentified_marked.keepsIds ())
    (wellIdentified_marked.tellsApart ()) ids ids.reverse (fun i _ => isComplete_marked i) hnodup
    (fun i => List.mem_reverse)
  obtain ⟨es, hes⟩ := hsucceeds.2 ⟨_, heach⟩
  obtain ⟨hperm, -, hcoincides⟩ := hagree es _ hes heach
  exact ⟨s, es, hs, hes, heach, hperm, hcoincides⟩

end EntityStore
