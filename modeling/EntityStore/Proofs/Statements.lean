import EntityStore.Proofs.Moves
import EntityStore.Store.TableOp
/-!
# What a statement does to its session

A statement does one of three things.  It reads: then the storage stays as it is, and of the transaction only its
caches, its log, its locks and its snapshot change.  Or it queues a write.  Or it applies a write to the storage at
once.  `TableOp.effect` says so for every statement, with the write that it is about (`TableOp.write?`); whatever holds
of these three holds of every statement.
-/
namespace EntityStore

variable {X : Scalars} {κ : Type} [DecidableEq κ] {C : κ → EntityType X}

/-- A write to a table. -/
structure TableWrite (C : κ → EntityType X) where
  kind : κ
  write : Write (C kind)

/-- The write that a statement asks for: of the entity as the save hook leaves it, under its flat identifier. -/
def TableOp.write? : TableOp C → Option (TableWrite C)
  | .insert k e =>
    match (C k).flatten ((C k).idOf ((C k).onSave e)) with
    | .ok cells => some ⟨k, cells, .insert ((C k).onSave e)⟩
    | .error _ => none
  | .save k e =>
    match (C k).flatten ((C k).idOf ((C k).onSave e)) with
    | .ok cells => some ⟨k, cells, .save ((C k).onSave e)⟩
    | .error _ => none
  | .delete k id =>
    match (C k).flatten id with
    | .ok cells => some ⟨k, cells, .delete⟩
    | .error _ => none
  | _ => none

omit [DecidableEq κ] in
theorem TableOp.write?_cases {op : TableOp C} {w : TableWrite C} (h : op.write? = some w) :
    (∃ e, (op = .insert w.kind e ∨ op = .save w.kind e) ∧
      (C w.kind).flatten ((C w.kind).idOf ((C w.kind).onSave e)) = .ok w.write.cells ∧
        w.write.change.row? = some ((C w.kind).onSave e)) ∨
    ∃ id, op = .delete w.kind id ∧ (C w.kind).flatten id = .ok w.write.cells ∧ w.write.change.row? = none := by
  cases op with
  | insert k e =>
    dsimp only [write?] at h
    split at h
    · rename_i cells hcells
      cases h
      exact .inl ⟨e, .inl rfl, hcells, rfl⟩
    · cases h
  | save k e =>
    dsimp only [write?] at h
    split at h
    · rename_i cells hcells
      cases h
      exact .inl ⟨e, .inr rfl, hcells, rfl⟩
    · cases h
  | delete k id =>
    dsimp only [write?] at h
    split at h
    · rename_i cells hcells
      cases h
      exact .inr ⟨id, rfl, hcells, rfl⟩
    · cases h
  | _ => cases h

namespace Transaction

/-- Whether the transaction may write. -/
def isMutable (t : Transaction C) : Bool := !t.options.isScan && !t.options.isReadOnly

omit [DecidableEq κ] in
theorem ensureActive_eq_ok_iff (t : Transaction C) : t.ensureActive = .ok () ↔ t.closedBy = none := by
  unfold ensureActive
  cases t.closedBy <;> simp

omit [DecidableEq κ] in
theorem ensureMutable_eq_ok_iff (t : Transaction C) : t.ensureMutable = .ok () ↔ t.isMutable = true := by
  unfold ensureMutable isMutable
  cases t.options.isScan <;> cases t.options.isReadOnly <;> simp

theorem cache_setCache (t : Transaction C) (k j : κ) (c : Cache (C k)) :
    (t.setCache k c).cache j = if h : k = j then h ▸ c else t.cache j := by
  unfold cache setCache
  by_cases h : k = j
  · subst h
    rw [dif_pos rfl, KindMap.get?_set_self]
    rfl
  · rw [dif_neg h, KindMap.get?_set_of_ne _ h]

end Transaction

namespace Session

theorem cache_openTable (s : Session C) (k j : κ) : (s.openTable k).tx.cache j = s.tx.cache j := by
  unfold openTable
  cases hk : s.tx.caches.get? k with
  | some c => rfl
  | none =>
    refine (s.tx.cache_setCache k j _).trans ?_
    split
    · rename_i he
      subst he
      unfold Transaction.cache
      rw [hk]
      rfl
    · rfl

theorem snapshot_openTable (s : Session C) (k : κ) : (s.openTable k).tx.snapshot = s.tx.snapshot := by
  unfold openTable
  split <;> rfl

theorem invalidated_openTable (s : Session C) (k : κ) : (s.openTable k).tx.invalidated = s.tx.invalidated := by
  unfold openTable
  split <;> rfl

omit [DecidableEq κ] in
@[simp] theorem version_pin (s : Session C) : s.pin.version = s.version := rfl

/-- **A read is refused, meets a conflict, or looks at the rows.** -/
theorem read_cases {α : Type} (s : Session C) (k : κ) (action : String) (summary : α → String)
    (f : Option (Shard (C k)) → Nat → Except Error α) :
    (∃ closing, s.tx.closedBy = some closing ∧
      s.read k action summary f = (.error (StoreError.closed closing).toError, s)) ∨
    (s.tx.closedBy = none ∧ ∃ e, s.pin.conflict? k = some e ∧
      s.read k action summary f = (.error e.toError,
        { s.pin with tx := { s.pin.tx with invalidated := true } }.logStatement action summary (.error e.toError))) ∨
    (s.tx.closedBy = none ∧ s.pin.conflict? k = none ∧
      s.read k action summary f =
        (f (s.storage.shard? k) s.version, s.pin.logStatement action summary (f (s.storage.shard? k) s.version))) := by
  unfold read Transaction.ensureActive
  cases hc : s.tx.closedBy with
  | some closing => exact .inl ⟨closing, rfl, rfl⟩
  | none =>
    dsimp only
    cases he : s.pin.conflict? k with
    | some e => exact .inr (.inl ⟨rfl, e, rfl, rfl⟩)
    | none => exact .inr (.inr ⟨rfl, rfl, rfl⟩)

theorem hasWritten_of_conflict? {s : Session C} {k : κ} {e : StoreError} (h : s.conflict? k = some e) :
    s.tx.hasWritten = true := by
  unfold conflict? at h
  split at h
  · assumption
  · cases h

/-- Nothing changed but caches, log, locks and, in an open transaction, the snapshot.  Only a transaction that has
written can find itself invalidated. -/
structure Reads (s s' : Session C) : Prop where
  storage : s'.storage = s.storage
  id : s'.tx.id = s.tx.id
  home : s'.tx.home = s.tx.home
  options : s'.tx.options = s.tx.options
  pending : s'.tx.pending = s.tx.pending
  hasWritten : s'.tx.hasWritten = s.tx.hasWritten
  closedBy : s'.tx.closedBy = s.tx.closedBy
  snapshot : s'.tx.snapshot = s.tx.snapshot ∨ (s.tx.closedBy = none ∧ s'.tx.snapshot = some s.version)
  valid : s.tx.hasWritten = false → s'.tx.invalidated = s.tx.invalidated

namespace Reads

variable {s s' s'' : Session C}

omit [DecidableEq κ] in
theorem refl (s : Session C) : Reads s s := ⟨rfl, rfl, rfl, rfl, rfl, rfl, rfl, .inl rfl, fun _ => rfl⟩

omit [DecidableEq κ] in
theorem version_eq (h : Reads s s') : s'.version = s.version := by
  unfold version
  rcases h.snapshot with hs | ⟨-, hs⟩
  · rw [hs, h.storage]
  · rw [hs]
    rfl

omit [DecidableEq κ] in
theorem trans (h : Reads s s') (h' : Reads s' s'') : Reads s s'' where
  storage := h'.storage.trans h.storage
  id := h'.id.trans h.id
  home := h'.home.trans h.home
  options := h'.options.trans h.options
  pending := h'.pending.trans h.pending
  hasWritten := h'.hasWritten.trans h.hasWritten
  closedBy := h'.closedBy.trans h.closedBy
  snapshot := by
    rcases h'.snapshot with hs | ⟨hc, hs⟩
    · rcases h.snapshot with hs' | ⟨hc, hs'⟩
      · exact .inl (hs.trans hs')
      · exact .inr ⟨hc, hs.trans hs'⟩
    · exact .inr ⟨h.closedBy ▸ hc, by rw [hs, h.version_eq]⟩
  valid hw := (h'.valid (h.hasWritten.trans hw)).trans (h.valid hw)

theorem lockRow (s : Session C) (k : κ) (c : Cells X) : Reads s (s.lockRow k c) :=
  ⟨rfl, rfl, rfl, rfl, rfl, rfl, rfl, .inl rfl, fun _ => rfl⟩

theorem lockScan (s : Session C) (k : κ) (scan : Scan X) : Reads s (s.lockScan k scan) :=
  ⟨rfl, rfl, rfl, rfl, rfl, rfl, rfl, .inl rfl, fun _ => rfl⟩

theorem setCache (s : Session C) (k : κ) (c : Cache (C k)) : Reads s (s.setCache k c) :=
  ⟨rfl, rfl, rfl, rfl, rfl, rfl, rfl, .inl rfl, fun _ => rfl⟩

omit [DecidableEq κ] in
theorem logDebug (s : Session C) (message : String) : Reads s (s.logDebug message) :=
  ⟨rfl, rfl, rfl, rfl, rfl, rfl, rfl, .inl rfl, fun _ => rfl⟩

omit [DecidableEq κ] in
theorem record (s : Session C) (f : TxLog → TxLog) : Reads s { s with tx := { s.tx with log := f s.tx.log } } :=
  ⟨rfl, rfl, rfl, rfl, rfl, rfl, rfl, .inl rfl, fun _ => rfl⟩

omit [DecidableEq κ] in
theorem logStatement {α : Type} (s : Session C) (action : String) (summary : α → String) (r : Except Error α) :
    Reads s (s.logStatement action summary r) := by
  cases r <;> exact logDebug ..

omit [DecidableEq κ] in
theorem pin {s : Session C} (h : s.tx.closedBy = none) : Reads s s.pin :=
  ⟨rfl, rfl, rfl, rfl, rfl, rfl, rfl, .inr ⟨h, rfl⟩, fun _ => rfl⟩

theorem openTable (s : Session C) (k : κ) : Reads s (s.openTable k) := by
  unfold Session.openTable
  split
  · exact refl s
  · exact setCache ..

theorem read {α : Type} (s : Session C) (k : κ) (action : String) (summary : α → String)
    (f : Option (Shard (C k)) → Nat → Except Error α) : Reads s (s.read k action summary f).2 := by
  rcases s.read_cases k action summary f with ⟨closing, -, he⟩ | ⟨ho, e, hconflict, he⟩ | ⟨ho, -, he⟩
  · rw [he]
    exact refl s
  · have hinvalid : Reads s.pin { s.pin with tx := { s.pin.tx with invalidated := true } } := by
      refine ⟨rfl, rfl, rfl, rfl, rfl, rfl, rfl, .inl rfl, fun hw => ?_⟩
      rw [hasWritten_of_conflict? hconflict] at hw
      cases hw
    rw [he]
    exact ((pin ho).trans hinvalid).trans (logStatement _ action summary (.error e.toError))
  · rw [he]
    exact (pin ho).trans (logStatement _ action summary _)

theorem findUnknown (s : Session C) (k : κ) (id : (C k).Id) (c : Cells X) : Reads s (s.findUnknown k id c).2 := by
  unfold Session.findUnknown
  dsimp only
  split
  · rename_i hr
    exact congrArg Prod.snd hr ▸ (lockRow s k c).trans (read ..)
  · rename_i hr
    exact (congrArg Prod.snd hr ▸ (lockRow s k c).trans (read ..)).trans (setCache ..)

theorem find (s : Session C) (k : κ) (id : (C k).Id) : Reads s (s.find k id).2 := by
  unfold Session.find
  split
  · exact refl s
  · split
    · exact refl s
    · split
      · exact refl s
      · exact findUnknown ..

theorem lockIds (k : κ) : ∀ (ids : List (C k).Id) (s : Session C), Reads s (s.lockIds k ids).2
  | [], s => refl s
  | id :: rest, s => by
    rw [Session.lockIds]
    split
    · exact refl s
    · rename_i cells _
      have hl :
          Reads s (if Cells.isPartial cells = true then s.lockScan k (.agreeing cells) else s.lockRow k cells) := by
        split
        · exact lockScan ..
        · exact lockRow ..
      have := hl.trans (lockIds k rest _)
      dsimp only
      split
      · rename_i hr
        rw [hr] at this
        exact this
      · rename_i hr
        rw [hr] at this
        exact this

theorem findUncached (s : Session C) (k : κ) (ids : List (C k).Id) : Reads s (s.findUncached k ids).2 := by
  unfold Session.findUncached
  split
  · exact refl s
  · have h := lockIds k ids.eraseDups s
    split
    · rename_i hr
      rw [hr] at h
      exact h
    · rename_i hr
      rw [hr] at h
      exact h.trans (read ..)

end Reads

end Session

/-- What a merge makes of the answer to its question. -/
def Cache.mergeAnswer {E : EntityType X} (c : Cache E) (ids : List E.Id) (isPartial : Bool) :
    Except Error (List E.Entity) → Except Error (List E.Entity) × Cache E
  | .error e => (.error e, c)
  | .ok rows =>
    let (found, c') := c.absorbRows (c.held ids.eraseDups) rows
    (E.sortById found.values, if isPartial then c' else c'.noteMissing rows (c.unknown ids.eraseDups))

/-- A merge asks nothing, or asks once for what the cache does not know and goes on with the answer. -/
theorem Cache.merge_cases {E : EntityType X} {σ : Type} (c : Cache E) (ids : List E.Id)
    (ask : List E.Id → σ → Except Error (List E.Entity) × σ) :
    (∃ r c', ∀ s, c.merge ids ask s = (r, c', s)) ∨
    (∃ g : Except Error (List E.Entity) → Except Error (List E.Entity) × Cache E,
      ∀ s, c.merge ids ask s = ((g (ask (c.unknown ids.eraseDups) s).1).1, (g (ask (c.unknown ids.eraseDups) s).1).2,
        (ask (c.unknown ids.eraseDups) s).2)) := by
  unfold merge
  dsimp only
  cases ids.isEmpty with
  | true => exact .inl ⟨_, _, fun _ => rfl⟩
  | false =>
    cases arePartial ids.eraseDups with
    | error e => exact .inl ⟨.error e, c, fun _ => rfl⟩
    | ok isPartial =>
      cases (c.unknown ids.eraseDups).isEmpty with
      | true => exact .inl ⟨_, _, fun s => rfl⟩
      | false =>
        refine .inr ⟨c.mergeAnswer ids isPartial, fun s => ?_⟩
        simp only [Bool.false_eq_true, if_false]
        generalize ask (c.unknown ids.eraseDups) s = r
        obtain ⟨answer, s'⟩ := r
        cases answer <;> rfl

theorem Cache.fst_merge {E : EntityType X} {σ : Type} (c : Cache E) {ids : List E.Id}
    (ask : List E.Id → σ → Except Error (List E.Entity) × σ) (s : σ) (hids : ids ≠ []) :
    (c.merge ids ask s).1 =
      match arePartial (E := E) ids.eraseDups with
      | .error e => .error e
      | .ok isPartial => (c.mergeAnswer ids isPartial
          (if (c.unknown ids.eraseDups).isEmpty then .ok [] else (ask (c.unknown ids.eraseDups) s).1)).1 := by
  unfold merge
  rw [if_neg (by simpa using hids)]
  dsimp only
  cases arePartial (E := E) ids.eraseDups with
  | error e => rfl
  | ok isPartial =>
    cases (c.unknown ids.eraseDups).isEmpty with
    | true => rfl
    | false =>
      simp only [Bool.false_eq_true, if_false]
      generalize ask (c.unknown ids.eraseDups) s = r
      obtain ⟨answer, s'⟩ := r
      cases answer <;> rfl

theorem Cache.merge_state {E : EntityType X} {σ : Type} {P : σ → Prop} (c : Cache E) (ids : List E.Id)
    (ask : List E.Id → σ → Except Error (List E.Entity) × σ) {s : σ} (hs : P s) (ha : ∀ wanted, P (ask wanted s).2) :
    P (c.merge ids ask s).2.2 := by
  rcases c.merge_cases ids ask with ⟨r, c', hm⟩ | ⟨g, hm⟩
  · rw [hm]
    exact hs
  · rw [hm]
    exact ha _

theorem Session.findMany_eq_merge (s : Session C) (k : κ) (ids : List (C k).Id) :
    s.findMany k ids =
      let merged := (s.tx.cache k).merge ids (fun wanted s => s.findUncached k wanted) s
      (merged.1, merged.2.2.setCache k merged.2.1) := by
  unfold findMany
  generalize (s.tx.cache k).merge ids (fun wanted s => s.findUncached k wanted) s = merged
  obtain ⟨answer, c, s'⟩ := merged
  cases answer <;> rfl

namespace Session.Reads

theorem findMany (s : Session C) (k : κ) (ids : List (C k).Id) : Reads s (s.findMany k ids).2 := by
  rw [Session.findMany_eq_merge]
  have hasked := (s.tx.cache k).merge_state ids (fun wanted s => s.findUncached k wanted) (refl s)
    (fun wanted => findUncached s k wanted)
  exact hasked.trans (setCache ..)

theorem absorbRows (s : Session C) (k : κ) (rows : Except Error (List (C k).Entity)) :
    Reads s (s.absorbRows k rows).2 := by
  cases rows with
  | error e => exact refl s
  | ok rows => exact setCache ..

theorem findRange (s : Session C) (k : κ) (r : Interval X) : Reads s (s.findRange k r).2 :=
  ((lockScan s k _).trans (read ..)).trans (absorbRows ..)

theorem findAll (s : Session C) (k : κ) : Reads s (s.findAll k).2 :=
  ((lockScan s k _).trans (read ..)).trans (absorbRows ..)

theorem postLoad (s : Session C) (k : κ) (row : (C k).Entity) : Reads s (s.postLoad k row).2 := setCache ..

end Reads

/-! ## Writes -/

/-- A write was put into the queue. -/
structure Queues (s : Session C) (w : TableWrite C) (s' : Session C) : Prop where
  storage : s'.storage = s.storage
  id : s'.tx.id = s.tx.id
  home : s'.tx.home = s.tx.home
  options : s'.tx.options = s.tx.options
  pending : ∃ action, s'.tx.pending = s.tx.pending ++ [⟨action, w.kind, w.write⟩]
  hasWritten : s'.tx.hasWritten = s.tx.hasWritten
  closedBy : s'.tx.closedBy = s.tx.closedBy
  snapshot : s'.tx.snapshot = s.tx.snapshot
  valid : s.tx.hasWritten = false → s'.tx.invalidated = s.tx.invalidated

omit [DecidableEq κ] in
theorem Queues.push (s : Session C) (action : String) (w : TableWrite C) :
    Queues s w { s with tx := { s.tx with pending := s.tx.pending ++ [⟨action, w.kind, w.write⟩] } } :=
  ⟨rfl, rfl, rfl, rfl, ⟨action, rfl⟩, rfl, rfl, rfl, fun _ => rfl⟩

/-- A write went to the storage. -/
structure Applies (s : Session C) (w : TableWrite C) (s' : Session C) : Prop where
  storage : s'.storage = (s.storage.write s.tx.id s.version w.kind w.write).2
  id : s'.tx.id = s.tx.id
  home : s'.tx.home = s.tx.home
  options : s'.tx.options = s.tx.options
  pending : s'.tx.pending = s.tx.pending
  closedBy : s'.tx.closedBy = s.tx.closedBy
  snapshot : s'.tx.snapshot = some s.version

theorem apply_spec (s : Session C) (action : String) (k : κ) (w : Write (C k)) :
    (s.apply action k w).1 = (s.storage.write s.tx.id s.version k w).1 ∧ Applies s ⟨k, w⟩ (s.apply action k w).2 ∧
      (s.apply action k w).2.tx.locks = s.tx.locks := by
  have hpin : s.pin.storage.write s.pin.tx.id s.pin.version k w = s.storage.write s.tx.id s.version k w := rfl
  unfold apply
  dsimp only
  rw [hpin]
  cases hr : s.storage.write s.tx.id s.version k w with
  | mk result storage =>
    have hstorage : (s.storage.write s.tx.id s.version k w).2 = storage := by rw [hr]
    cases result with
    | ok u => exact ⟨rfl, ⟨hstorage.symm, rfl, rfl, rfl, rfl, rfl, rfl⟩, rfl⟩
    | error e => exact ⟨rfl, ⟨hstorage.symm, rfl, rfl, rfl, rfl, rfl, rfl⟩, rfl⟩

/-- **A write is refused, applied or queued.** -/
theorem write_cases (s : Session C) (action : String) (k : κ) (w : Write (C k)) :
    (∃ e, s.write action k w = (.error e, s)) ∨
    (s.tx.closedBy = none ∧ s.tx.isMutable = true ∧ s.tx.options.isImmediate = true ∧
      s.write action k w = s.apply action k w) ∨
    (s.tx.closedBy = none ∧ s.tx.isMutable = true ∧ s.tx.options.isImmediate = false ∧
      s.write action k w = (.ok (), { s with tx := { s.tx with pending := s.tx.pending ++ [⟨action, k, w⟩] } })) := by
  unfold write
  cases ha : s.tx.ensureActive with
  | error e => exact .inl ⟨e.toError, rfl⟩
  | ok u =>
    cases hm : s.tx.ensureMutable with
    | error e => exact .inl ⟨e.toError, rfl⟩
    | ok u =>
      have hc := (s.tx.ensureActive_eq_ok_iff).1 ha
      have hm := (s.tx.ensureMutable_eq_ok_iff).1 hm
      cases hi : s.tx.options.isImmediate with
      | true => exact .inr (.inl ⟨hc, hm, rfl, rfl⟩)
      | false => exact .inr (.inr ⟨hc, hm, rfl, rfl⟩)

end Session

/-! ## Statements -/

/-- What became of a statement: with the answer `answer` it took the session `s` to `s'`. -/
inductive Session.Effect (op : TableOp C) (s : Session C) (answer : Except Error op.Answer) (s' : Session C) : Prop
  /-- Nothing was written. -/
  | reads (h : Session.Reads s s') (unwritten : op.write? = none ∨ ∃ e, answer = .error e)
  | queues (w : TableWrite C) (hw : op.write? = some w) (isOpen : s.tx.closedBy = none)
      (isMutable : s.tx.isMutable = true) (delayed : s.tx.options.isImmediate = false) (h : Session.Queues s w s')
      (done : ∃ a, answer = .ok a)
  | applies (w : TableWrite C) (hw : op.write? = some w) (isOpen : s.tx.closedBy = none)
      (isMutable : s.tx.isMutable = true) (immediate : s.tx.options.isImmediate = true) (h : Session.Applies s w s')
      (done : answer.toOption.isSome = (s.storage.write s.tx.id s.version w.kind w.write).1.toOption.isSome)

namespace Session

variable {s s' s'' : Session C} {w : TableWrite C}

/-- Nothing changed but caches, log and locks. -/
structure Notes (s s' : Session C) : Prop where
  reads : Reads s s'
  snapshot : s'.tx.snapshot = s.tx.snapshot

omit [DecidableEq κ] in
theorem Notes.refl (s : Session C) : Notes s s := ⟨Reads.refl s, rfl⟩

theorem Notes.lockRow (s : Session C) (k : κ) (c : Cells X) : Notes s (s.lockRow k c) := ⟨Reads.lockRow .., rfl⟩

theorem Notes.setCache (s : Session C) (k : κ) (c : Cache (C k)) : Notes s (s.setCache k c) := ⟨Reads.setCache .., rfl⟩

theorem Notes.openTable (s : Session C) (k : κ) : Notes s (s.openTable k) := by
  unfold Session.openTable
  split
  · exact refl s
  · exact setCache ..

omit [DecidableEq κ] in
theorem Queues.after (h : Queues s' w s'') (hn : Notes s s') : Queues s w s'' where
  storage := h.storage.trans hn.reads.storage
  id := h.id.trans hn.reads.id
  home := h.home.trans hn.reads.home
  options := h.options.trans hn.reads.options
  pending := by
    obtain ⟨action, hp⟩ := h.pending
    exact ⟨action, by rw [hp, hn.reads.pending]⟩
  hasWritten := h.hasWritten.trans hn.reads.hasWritten
  closedBy := h.closedBy.trans hn.reads.closedBy
  snapshot := h.snapshot.trans hn.snapshot
  valid hw := (h.valid (hn.reads.hasWritten.trans hw)).trans (hn.reads.valid hw)

omit [DecidableEq κ] in
theorem Queues.before (h : Queues s w s') (hn : Notes s' s'') : Queues s w s'' where
  storage := hn.reads.storage.trans h.storage
  id := hn.reads.id.trans h.id
  home := hn.reads.home.trans h.home
  options := hn.reads.options.trans h.options
  pending := by
    obtain ⟨action, hp⟩ := h.pending
    exact ⟨action, by rw [hn.reads.pending, hp]⟩
  hasWritten := hn.reads.hasWritten.trans h.hasWritten
  closedBy := hn.reads.closedBy.trans h.closedBy
  snapshot := hn.snapshot.trans h.snapshot
  valid hw := (hn.reads.valid (h.hasWritten.trans hw)).trans (h.valid hw)

theorem Applies.after (h : Applies s' w s'') (hn : Notes s s') : Applies s w s'' where
  storage := by rw [h.storage, hn.reads.storage, hn.reads.id, hn.reads.version_eq]
  id := h.id.trans hn.reads.id
  home := h.home.trans hn.reads.home
  options := h.options.trans hn.reads.options
  pending := h.pending.trans hn.reads.pending
  closedBy := h.closedBy.trans hn.reads.closedBy
  snapshot := by rw [h.snapshot, hn.reads.version_eq]

theorem Applies.before (h : Applies s w s') (hn : Notes s' s'') : Applies s w s'' where
  storage := hn.reads.storage.trans h.storage
  id := hn.reads.id.trans h.id
  home := hn.reads.home.trans h.home
  options := hn.reads.options.trans h.options
  pending := hn.reads.pending.trans h.pending
  closedBy := hn.reads.closedBy.trans h.closedBy
  snapshot := hn.snapshot.trans h.snapshot

theorem Effect.after {op : TableOp C} {answer : Except Error op.Answer} (h : Effect op s' answer s'')
    (hn : Notes s s') : Effect op s answer s'' := by
  cases h with
  | reads h hw => exact .reads (hn.reads.trans h) hw
  | queues w hw ho hm hd h done =>
    refine .queues w hw (hn.reads.closedBy ▸ ho) ?_ (hn.reads.options ▸ hd) (h.after hn) done
    unfold Transaction.isMutable at hm ⊢
    rw [← hn.reads.options]
    exact hm
  | applies w hw ho hm hi h done =>
    refine .applies w hw (hn.reads.closedBy ▸ ho) ?_ (hn.reads.options ▸ hi) (h.after hn) ?_
    · unfold Transaction.isMutable at hm ⊢
      rw [← hn.reads.options]
      exact hm
    · rw [done, hn.reads.storage, hn.reads.id, hn.reads.version_eq]

/-- A write, with what the caches remember of it. -/
def writeThrough {α : Type} (s : Session C) (action : String) (k : κ) (w : Write (C k)) (a : α)
    (cache : Session C → Cache (C k)) : Except Error α × Session C :=
  match s.write action k w with
  | (.error e, s) => (.error e, s)
  | (.ok (), s) => (.ok a, s.setCache k (cache s))

theorem effect_writeThrough {op : TableOp C} (s : Session C) (action : String) (k : κ) (w : Write (C k)) (a : op.Answer)
    (cache : Session C → Cache (C k)) (hw : op.write? = some ⟨k, w⟩) :
    Effect op s (s.writeThrough action k w a cache).1 (s.writeThrough action k w a cache).2 := by
  unfold writeThrough
  rcases s.write_cases action k w with ⟨e, he⟩ | ⟨ho, hm, hi, he⟩ | ⟨ho, hm, hi, he⟩
  · rw [he]
    exact .reads (Reads.refl s) (.inr ⟨e, rfl⟩)
  · rw [he]
    obtain ⟨hfst, happ, -⟩ := s.apply_spec action k w
    generalize hr : s.apply action k w = r at hfst happ
    obtain ⟨result, s'⟩ := r
    cases result with
    | error e => exact .applies ⟨k, w⟩ hw ho hm hi happ (by rw [← hfst]; rfl)
    | ok u => exact .applies ⟨k, w⟩ hw ho hm hi (happ.before (Notes.setCache ..)) (by rw [← hfst]; rfl)
  · rw [he]
    exact .queues ⟨k, w⟩ hw ho hm hi ((Queues.push s action ⟨k, w⟩).before (Notes.setCache ..)) ⟨a, rfl⟩

/-- Locks a row, or leaves it. -/
def lockRowIf (s : Session C) (lock : Bool) (k : κ) (c : Cells X) : Session C := if lock then s.lockRow k c else s

theorem Notes.lockRowIf (s : Session C) (lock : Bool) (k : κ) (c : Cells X) : Notes s (s.lockRowIf lock k c) := by
  cases lock with
  | true => exact Notes.lockRow s k c
  | false => exact Notes.refl s

end Session

/-- Whether a statement is an insertion, a replacement or a deletion. -/
def TableOp.isWrite : TableOp C → Bool
  | .insert _ _ | .save _ _ | .delete _ _ => true
  | _ => false

namespace TableOp

omit [DecidableEq κ] in
theorem isWrite_of_write? {op : TableOp C} {w : TableWrite C} (hw : op.write? = some w) : op.isWrite = true := by
  cases op <;> first | rfl | cases hw

/-- What a writing statement is made of.  It fails for want of a flat form, or it makes a write, with a lock on its row if
it is an insertion, and has the cache remember what is then under an identifier. -/
inductive Writing (op : TableOp C) : Prop
  | fails {k : κ} {id : (C k).Id} (e : Error) (hflat : (C k).flatten id = .error e) (hw : op.write? = none)
      (hrun : ∀ s, op.runOpen s = (.error e, s))
  | writes (k : κ) (w : Write (C k)) (id : (C k).Id) (slot : Slot (C k).Entity) (lock : Bool) (action : String)
      (a : op.Answer) (hflat : (C k).flatten id = .ok w.cells) (hw : op.write? = some ⟨k, w⟩)
      (hslot : slot.entity? = w.change.row?) (hown : ∀ e, slot.entity? = some e → (C k).idOf e = id)
      (hlock : ∀ e, w.change = .insert e → lock = true)
      (hrun : ∀ s, op.runOpen s =
        (s.lockRowIf lock k w.cells).writeThrough action k w a (fun s => (s.tx.cache k).setSlot id slot))

/-- The one place where insertions, replacements and deletions are taken apart. -/
theorem writing (op : TableOp C) (hop : op.isWrite = true) : op.Writing := by
  cases op with
  | insert k e =>
    cases hf : (C k).flatten ((C k).idOf ((C k).onSave e)) with
    | error err =>
      refine .fails err hf (by simp only [write?, hf]) fun s => ?_
      simp only [runOpen, Session.insert, hf]
      rfl
    | ok c =>
      refine .writes k ⟨c, .insert ((C k).onSave e)⟩ _ (.present ((C k).onSave e)) true
        s!"insert({(C k).entityText ((C k).onSave e)})" ((C k).onSave e) hf (by simp only [write?, hf]) rfl
        (fun _ h => by cases h; rfl) (fun _ _ => rfl) fun s => ?_
      simp only [runOpen, Session.insert, hf]
      rfl
  | save k e =>
    cases hf : (C k).flatten ((C k).idOf ((C k).onSave e)) with
    | error err =>
      refine .fails err hf (by simp only [write?, hf]) fun s => ?_
      simp only [runOpen, Session.save, hf]
      rfl
    | ok c =>
      refine .writes k ⟨c, .save ((C k).onSave e)⟩ _ (.present ((C k).onSave e)) false
        s!"save({(C k).entityText ((C k).onSave e)})" ((C k).onSave e) hf (by simp only [write?, hf]) rfl
        (fun _ h => by cases h; rfl) nofun fun s => ?_
      simp only [runOpen, Session.save, hf]
      rfl
  | delete k id =>
    cases hf : (C k).flatten id with
    | error err =>
      refine .fails err hf (by simp only [write?, hf]) fun s => ?_
      simp only [runOpen, Session.delete, hf]
      rfl
    | ok c =>
      refine .writes k ⟨c, .delete⟩ id .tombstoned false s!"delete({(C k).idText id})" () hf (by simp only [write?, hf]) rfl
        nofun nofun fun s => ?_
      simp only [runOpen, Session.delete, hf]
      rfl
  | _ => cases hop

theorem effect_of_isWrite (op : TableOp C) (hop : op.isWrite = true) (s : Session C) :
    Session.Effect op s (op.runOpen s).1 (op.runOpen s).2 := by
  cases op.writing hop with
  | fails e _ _ hrun =>
    rw [hrun]
    exact .reads (Session.Reads.refl s) (.inr ⟨e, rfl⟩)
  | writes _ _ _ _ _ _ _ _ hw _ _ _ hrun =>
    rw [hrun]
    exact (Session.effect_writeThrough _ _ _ _ _ _ hw).after (Session.Notes.lockRowIf ..)

theorem effect_runOpen (op : TableOp C) (s : Session C) : Session.Effect op s (op.runOpen s).1 (op.runOpen s).2 := by
  cases op with
  | find k id => exact .reads (Session.Reads.find ..) (.inl rfl)
  | findMany k ids => exact .reads (Session.Reads.findMany ..) (.inl rfl)
  | findUncached k ids => exact .reads (Session.Reads.findUncached ..) (.inl rfl)
  | findRange k r => exact .reads (Session.Reads.findRange ..) (.inl rfl)
  | findAll k => exact .reads (Session.Reads.findAll ..) (.inl rfl)
  | postLoad k row => exact .reads (Session.Reads.postLoad ..) (.inl rfl)
  | cache k op => exact .reads (Session.Reads.setCache ..) (.inl rfl)
  | _ => exact effect_of_isWrite _ rfl s

/-- **Every statement reads, queues its write or applies it.** -/
theorem effect (op : TableOp C) (s : Session C) : Session.Effect op s (op.run s).1 (op.run s).2 :=
  (effect_runOpen op _).after (Session.Notes.openTable s op.kind)

end TableOp

end EntityStore
