import EntityStore.Proofs.FlatForms
import EntityStore.Proofs.PointView
import EntityStore.Proofs.Serial
import EntityStore.Samples.Irregular
/-!
# Transactions that nobody has overtaken

A transaction that sees the newest rows of its storage (`Session.Latest`) finds all its locks good.  Its reads meet no
conflict, so that they always answer, from the cache and the rows alone; and its commit comes to what its writes come to
(`Latest.commit_eq`).  While nobody else is at work it stays so, statement after statement (`TableOp.latest_run`).
-/
namespace EntityStore

variable {X : Scalars} {κ : Type} [DecidableEq κ] {C : κ → EntityType X}

/-! ## What caches learn -/

namespace Cache

variable {E : EntityType X} {σ : Type}

/-- A cache after some of its slots were set. -/
inductive Learns (c : Cache E) : Cache E → Prop
  | refl : Learns c c
  | setSlot {c' : Cache E} (h : Learns c c') (id : E.Id) (slot : Slot E.Entity) : Learns c (c'.setSlot id slot)

variable {c c' c'' : Cache E}

theorem Learns.trans (h : Learns c c') (h' : Learns c' c'') : Learns c c'' := by
  induction h' with
  | refl => exact h
  | setSlot _ id slot ih => exact ih.setSlot id slot

theorem Learns.extends (h : Learns c c') : Extends c c' := by
  induction h with
  | refl => exact .refl c
  | setSlot _ id slot ih => exact ih.trans (extends_setSlot _ id slot)

theorem Learns.eq_of_disabled (h : Learns c c') (hc : c.enabled = false) : c' = c := by
  induction h with
  | refl => rfl
  | setSlot _ id slot ih =>
    rw [ih]
    unfold Cache.setSlot
    rw [if_neg (by rw [hc]; exact Bool.false_ne_true)]

theorem learns_settle (c : Cache E) (id : E.Id) : ∀ e? : Option E.Entity, Learns c (c.settle id e?)
  | some _ => Learns.refl.setSlot _ _
  | none => Learns.refl.setSlot _ _

theorem learns_run (c : Cache E) (op : CacheOp E) : Learns c (op.run c).2 := by
  cases op with
  | getOrLoad id load =>
    show Learns c (c.getOrLoad id load).2
    unfold getOrLoad
    split
    · exact .refl
    · cases load with
      | error e => exact .refl
      | ok e? => exact c.learns_settle id e?
  | put e => exact Learns.refl.setSlot _ _
  | putEmpty id => exact Learns.refl.setSlot _ _
  | putTombstone id => exact Learns.refl.setSlot _ _
  | _ => exact .refl

theorem learns_absorb (c : Cache E) (row : E.Entity) : Learns c (c.absorb row).2 := by
  unfold absorb
  split
  · exact .refl
  · exact Learns.refl.setSlot _ _

theorem learns_absorbAll : ∀ (rows : List E.Entity) (c : Cache E), Learns c (c.absorbAll rows).2
  | [], _ => .refl
  | row :: rest, c => (c.learns_absorb row).trans (learns_absorbAll rest _)

theorem learns_absorbRows : ∀ (rows : List E.Entity) (c : Cache E) (found : Dict E.Id E.Entity),
    Learns c (c.absorbRows found rows).2
  | [], _, _ => .refl
  | row :: rest, c, found => by
    have hfirst := c.learns_absorb row
    rw [absorbRows]
    split <;> rename_i hr <;> rw [hr] at hfirst <;> exact hfirst.trans (learns_absorbRows rest _ _)

theorem learns_noteMissing (rows : List E.Entity) : ∀ (ids : List E.Id) (c : Cache E), Learns c (c.noteMissing rows ids)
  | [], _ => .refl
  | id :: rest, c => by
    unfold noteMissing
    rw [List.foldl_cons]
    split
    · exact learns_noteMissing rows rest c
    · exact (Learns.refl.setSlot id .absent).trans (learns_noteMissing rows rest (c.putEmpty id))

theorem learns_merge (c : Cache E) (ids : List E.Id) (ask : List E.Id → σ → Except Error (List E.Entity) × σ) (s : σ) :
    Learns c (c.merge ids ask s).2.1 := by
  unfold merge
  split
  · exact .refl
  · dsimp only
    split
    · exact .refl
    · split
      · exact .refl
      · rename_i isPartial _ _ rows s' _
        have habsorbed := learns_absorbRows rows c (c.held ids.eraseDups)
        cases isPartial with
        | true => exact habsorbed
        | false => exact habsorbed.trans (learns_noteMissing rows _ _)

end Cache

namespace Session

variable {s s' : Session C} {k : κ}

/-- A changed cache is the only change to the caches, and one that has learnt something. -/
theorem learns_setCache (hs : s'.tx.caches = s.tx.caches) (ho : s'.tx.options = s.tx.options) {c : Cache (C k)}
    (hc : (s.tx.cache k).Learns c) (j : κ) : (s.tx.cache j).Learns ((s'.setCache k c).tx.cache j) := by
  have hcache : (s'.setCache k c).tx.cache j = _ := s'.tx.cache_setCache k j c
  rw [hcache]
  split
  · rename_i hj
    subst hj
    exact hc
  · rw [cache_of_caches hs ho j]
    exact .refl

theorem learns_of_caches (hs : s'.tx.caches = s.tx.caches) (ho : s'.tx.options = s.tx.options) (j : κ) :
    (s.tx.cache j).Learns (s'.tx.cache j) := cache_of_caches hs ho j ▸ .refl

theorem learns_find (s : Session C) (k : κ) (id : (C k).Id) (j : κ) :
    (s.tx.cache j).Learns ((s.find k id).2.tx.cache j) := by
  obtain ⟨hcaches, hoptions, -⟩ | ⟨c, s', -, -, -, -, hcaches, hoptions, -, hfind⟩ := s.find_settles k id
  · exact learns_of_caches hcaches hoptions j
  · rw [hfind]
    exact learns_setCache hcaches hoptions ((s.tx.cache k).learns_settle id _) j

theorem learns_findMany (s : Session C) (k : κ) (ids : List (C k).Id) (j : κ) :
    (s.tx.cache j).Learns ((s.findMany k ids).2.tx.cache j) := by
  have hlearns := (s.tx.cache k).learns_merge ids (fun wanted s => s.findUncached k wanted) s
  obtain ⟨hcaches, hoptions⟩ := s.caches_merge k ids
  rw [findMany_eq_merge]
  exact learns_setCache hcaches hoptions hlearns j

theorem learns_scan (s : Session C) (k : κ) (scan : Scan X) (action : String) (keep : Cells X → Except Error Bool) (j : κ) :
    let r := (s.lockScan k scan).read k action (rowsText k) ((s.lockScan k scan).collect k keep)
    (s.tx.cache j).Learns ((r.2.absorbRows k r.1).2.tx.cache j) := by
  intro r
  obtain ⟨hcaches, hoptions⟩ := s.caches_scan k scan action keep
  cases r.1 with
  | error e => exact learns_of_caches hcaches hoptions j
  | ok rows =>
    unfold absorbRows
    rw [cache_of_caches hcaches hoptions k]
    exact learns_setCache hcaches hoptions (Cache.learns_absorbAll rows _) j

end Session

/-- **Caches only learn from statements.** -/
theorem TableOp.learns_runOpen (op : TableOp C) (s : Session C) (j : κ) :
    (s.tx.cache j).Learns ((op.runOpen s).2.tx.cache j) := by
  cases hw : op.isWrite with
  | true =>
    rcases op.overwrites_runOpen s hw with ⟨-, -, hsame⟩ | ⟨-, w, -, id, slot, -, -, -, hcache, hothers⟩
    · exact hsame j ▸ .refl
    · by_cases hj : j = w.kind
      · subst hj
        exact hcache ▸ Cache.Learns.refl.setSlot id slot
      · exact hothers j hj ▸ .refl
  | false =>
    cases op with
    | find k id => exact s.learns_find k id j
    | findMany k ids => exact s.learns_findMany k ids j
    | findUncached k ids =>
      exact Session.learns_of_caches (s.caches_findUncached k ids) (Session.Reads.findUncached s k ids).options j
    | findRange k r => exact s.learns_scan k (.interval r) _ r.containsCells j
    | findAll k => exact s.learns_scan k .table _ (fun _ => .ok true) j
    | postLoad k row => exact Session.learns_setCache rfl rfl ((s.tx.cache k).learns_absorb row) j
    | cache k op => exact Session.learns_setCache rfl rfl ((s.tx.cache k).learns_run op) j
    | _ => cases hw

theorem TableOp.reads_runOpen (op : TableOp C) (hop : op.isWrite = false) (s : Session C) :
    Session.Reads s (op.runOpen s).2 := by
  have hnone : op.write? = none := by cases op <;> first | rfl | cases hop
  cases op.effect_runOpen s with
  | reads h _ => exact h
  | queues w hw _ _ _ _ _ =>
    rw [hnone] at hw
    cases hw
  | applies w hw _ _ _ _ _ =>
    rw [hnone] at hw
    cases hw

theorem TableOp.version_runOpen (op : TableOp C) (s : Session C) : (op.runOpen s).2.version = s.version := by
  cases op.effect_runOpen s with
  | reads h _ => exact h.version_eq
  | queues w _ _ _ _ h _ =>
    unfold Session.version
    rw [h.snapshot, h.storage]
  | applies w _ _ _ _ h _ => exact Session.version_of_snapshot h.snapshot

/-! ## The newest rows -/

namespace Session

/-- An open transaction that nothing has invalidated and that sees the newest rows of its storage. -/
structure Latest (s : Session C) : Prop where
  isOpen : s.tx.closedBy = none
  valid : s.tx.invalidated = false
  sound : s.Sound
  newest : s.version = s.storage.version

variable {s s' : Session C}

theorem Latest.reads (h : s.Latest) (hr : Reads s s') (hv : s'.tx.invalidated = s.tx.invalidated) : s'.Latest where
  isOpen := hr.closedBy.trans h.isOpen
  valid := hv.trans h.valid
  sound := hr.advances.sound h.sound
  newest := by rw [hr.version_eq, hr.storage, h.newest]

theorem Latest.not_stale (h : s.Latest) (k : κ) (c : Cells X) : s.storage.isStale s.version k c = false :=
  h.sound.storage.isStale_of_le (Nat.le_of_eq h.newest.symm) k c

theorem Latest.conflict?_eq_none (h : s.Latest) (k : κ) : s.conflict? k = none := by
  unfold conflict?
  split
  · rename_i shard _ hshard
    have hok : shard.checkLocks s.version (s.tx.locks.on k) = .ok () := by
      refine (Shard.checkLocks_eq_ok_iff (h.sound.storage.shard k shard hshard) _ _).2 fun c _ => ?_
      have := h.not_stale k c
      unfold Storage.isStale at this
      rw [hshard] at this
      exact this
    rw [hok]
  · rfl

/-- **A read meets no conflict**, whether the transaction has written or not. -/
theorem Latest.read_eq (h : s.Latest) {α : Type} (k : κ) (action : String) (summary : α → String)
    (f : Option (Shard (C k)) → Nat → Except Error α) :
    s.read k action summary f =
      (f (s.storage.shard? k) s.version, s.pin.logStatement action summary (f (s.storage.shard? k) s.version)) := by
  rcases s.read_cases k action summary f with ⟨_, hc, -⟩ | ⟨-, e, hconflict, -⟩ | ⟨-, -, he⟩
  · rw [h.isOpen] at hc
    cases hc
  · rw [(h.reads (.pin h.isOpen) rfl).conflict?_eq_none k] at hconflict
    cases hconflict
  · exact he

theorem Latest.logStatement {α : Type} (h : s.Latest) (action : String) (summary : α → String) (r : Except Error α) :
    (s.logStatement action summary r).Latest := h.reads (.logStatement ..) (by cases r <;> rfl)

theorem Latest.write (h : s.Latest) (action : String) (k : κ) (w : Write (C k)) : (s.write action k w).2.Latest := by
  rcases s.write_cases action k w with ⟨e, he⟩ | ⟨ho, hm, hi, he⟩ | ⟨ho, hm, hd, he⟩
  · rw [he]
    exact h
  · obtain ⟨-, happ, -⟩ := s.apply_spec action k w
    have hvalid : (s.apply action k w).2.tx.invalidated = s.tx.invalidated := by
      unfold apply
      dsimp only
      split <;> rfl
    rw [he]
    refine ⟨happ.closedBy.trans h.isOpen, hvalid.trans h.valid, (happ.advances ho hm hi).sound h.sound, ?_⟩
    rw [version_of_snapshot happ.snapshot, happ.storage, Storage.version_write]
    exact h.newest
  · rw [he]
    exact ⟨h.isOpen, h.valid, ((Queues.push s action ⟨k, w⟩).advances hd).sound h.sound, h.newest⟩

/-- Two transactions that nobody has overtaken, with the same caches and the same limits. -/
structure Alike (s₁ s₂ : Session C) : Prop where
  latest₁ : s₁.Latest
  latest₂ : s₂.Latest
  cache : ∀ k, s₁.tx.cache k = s₂.tx.cache k
  limits : s₁.tx.options.scan = s₂.tx.options.scan

theorem Latest.alike (h : s.Latest) : Alike s s := ⟨h, h, fun _ => rfl, rfl⟩

section

variable {s₁ s₂ s₁' s₂' : Session C}

theorem Alike.reads (h : Alike s₁ s₂) (h₁ : Reads s₁ s₁') (h₂ : Reads s₂ s₂')
    (hv₁ : s₁'.tx.invalidated = s₁.tx.invalidated) (hv₂ : s₂'.tx.invalidated = s₂.tx.invalidated)
    (hcache : ∀ k, s₁'.tx.cache k = s₂'.tx.cache k) : Alike s₁' s₂' :=
  ⟨h.latest₁.reads h₁ hv₁, h.latest₂.reads h₂ hv₂, hcache, by rw [h₁.options, h₂.options, h.limits]⟩

theorem Alike.setCache (h : Alike s₁ s₂) (k : κ) (c : Cache (C k)) : Alike (s₁.setCache k c) (s₂.setCache k c) := by
  refine h.reads (.setCache ..) (.setCache ..) rfl rfl fun j => ?_
  refine (s₁.tx.cache_setCache k j c).trans (Eq.trans ?_ (s₂.tx.cache_setCache k j c).symm)
  split
  · rfl
  · exact h.cache j

theorem congruence_alike : Congruence (Alike (C := C)) where
  cache h := h.cache
  limits h := h.limits
  sound h := ⟨h.latest₁.sound.storage, h.latest₂.sound.storage⟩
  lockRow h k c := h.reads (.lockRow ..) (.lockRow ..) rfl rfl h.cache
  lockScan h k scan := h.reads (.lockScan ..) (.lockScan ..) rfl rfl h.cache
  setCache h := h.setCache
  openTable {s₁ s₂} h k := h.reads (.openTable ..) (.openTable ..) (s₁.invalidated_openTable k) (s₂.invalidated_openTable k)
    fun j => (s₁.cache_openTable k j).trans ((h.cache j).trans (s₂.cache_openTable k j).symm)
  read {s₁ s₂} h α k action summary f₁ f₂ hf := by
    rw [h.latest₁.read_eq, h.latest₂.read_eq]
    refine ⟨hf h.latest₁.isOpen, ?_, ?_, fun j => ?_, ?_⟩
    · exact (h.latest₁.reads (.pin h.latest₁.isOpen) rfl).logStatement ..
    · exact (h.latest₂.reads (.pin h.latest₂.isOpen) rfl).logStatement ..
    · rw [cache_logStatement, cache_logStatement]
      exact h.cache j
    · rw [(Reads.logStatement s₁.pin ..).options, (Reads.logStatement s₂.pin ..).options]
      exact h.limits

end

/-- What becomes of a write in an open transaction: its answer, and the storage after it. -/
def writing (s : Session C) (w : TableWrite C) : Except Error Unit × Storage C :=
  match s.tx.ensureMutable with
  | .error e => (.error e.toError, s.storage)
  | .ok () =>
    if s.tx.options.isImmediate then s.storage.write s.tx.id s.version w.kind w.write else (.ok (), s.storage)

theorem write_eq_writing (ho : s.tx.closedBy = none) (action : String) (w : TableWrite C) :
    ((s.write action w.kind w.write).1, (s.write action w.kind w.write).2.storage) = s.writing w := by
  unfold write writing
  rw [s.tx.ensureActive_eq_ok_iff.2 ho]
  cases s.tx.ensureMutable with
  | error e => rfl
  | ok u =>
    dsimp only
    split
    · obtain ⟨hfst, happ, -⟩ := s.apply_spec action w.kind w.write
      rw [hfst, happ.storage]
    · rfl

/-- What becomes of a write depends on the number, the rights, the storage and the version of its transaction alone. -/
theorem writing_congr {s₁ s₂ : Session C} (hm : s₁.tx.ensureMutable = s₂.tx.ensureMutable)
    (hi : s₁.tx.options.isImmediate = s₂.tx.options.isImmediate) (hid : s₁.tx.id = s₂.tx.id)
    (hstorage : s₁.storage = s₂.storage) (hversion : s₁.version = s₂.version) (w : TableWrite C) :
    s₁.writing w = s₂.writing w := by
  unfold writing
  rw [hm, hi, hid, hstorage, hversion]

omit [DecidableEq κ] in
theorem ensureMutable_congr {t₁ t₂ : Transaction C} (hscan : t₁.options.scan = t₂.options.scan)
    (hisolation : t₁.options.isolation = t₂.options.isolation) : t₁.ensureMutable = t₂.ensureMutable := by
  unfold Transaction.ensureMutable TxOptions.isScan TxOptions.isReadOnly TxOptions.isReadWrite
  rw [hscan, hisolation]

end Session

/-! ## Writing statements -/

theorem Session.accepted_of_answer {α : Type} {outcome : Except Error Unit} {a b : α}
    (h : outcome.map (fun _ => a) = .ok b) : outcome = .ok () := by
  cases outcome with
  | ok u => rfl
  | error e => cases h

theorem Session.refused_of_answer {α : Type} {outcome : Except Error Unit} {a : α} {e : Error}
    (h : outcome.map (fun _ => a) = .error e) : outcome = .error e := by
  cases outcome with
  | ok u => cases h
  | error e' =>
    cases h
    rfl

/-- **What a writing statement comes to**: it fails for want of a flat form whatever the state, or hands on what becomes
of its write. -/
theorem TableOp.runOpen_of_isWrite (op : TableOp C) (hop : op.isWrite = true) :
    (∃ type message, ∀ s : Session C, op.runOpen s = (.error (.invalidSchema type message), s)) ∨
      ∃ w a, op.write? = some w ∧ ∀ s : Session C, s.tx.closedBy = none →
        (op.runOpen s).1 = (s.writing w).1.map (fun _ => a) ∧ (op.runOpen s).2.storage = (s.writing w).2 := by
  have hthrough : ∀ {k : κ} (action : String) (w : Write (C k)) (a : op.Answer) (cache : Session C → Cache (C k))
      {s : Session C}, s.tx.closedBy = none →
        (s.writeThrough action k w a cache).1 = (s.writing ⟨k, w⟩).1.map (fun _ => a) ∧
          (s.writeThrough action k w a cache).2.storage = (s.writing ⟨k, w⟩).2 := by
    intro k action w a cache s ho
    have hwriting := Session.write_eq_writing ho action ⟨k, w⟩
    unfold Session.writeThrough
    rw [← hwriting]
    generalize s.write action k w = written
    obtain ⟨answer, s'⟩ := written
    cases answer <;> exact ⟨rfl, rfl⟩
  cases op.writing hop with
  | fails _ hflat _ hrun =>
    obtain ⟨type, message, rfl⟩ := EntityType.flatten_error hflat
    exact .inl ⟨type, message, hrun⟩
  | writes k w id slot lock action a _ hwrite _ _ _ hrun =>
    refine .inr ⟨⟨k, w⟩, a, hwrite, fun s ho => ?_⟩
    have hreads := (Session.Notes.lockRowIf s lock k w.cells).reads
    rw [hrun]
    obtain ⟨hanswer, hstorage⟩ := hthrough action w a (fun s => (s.tx.cache k).setSlot id slot)
      (s := s.lockRowIf lock k w.cells) (hreads.closedBy.trans ho)
    rw [hanswer, hstorage]
    cases lock <;> exact ⟨rfl, rfl⟩

open Session in
/-- **A transaction that nobody has overtaken stays so**, whatever it does. -/
theorem TableOp.latest_run (op : TableOp C) {s : Session C} (h : s.Latest) : (op.run s).2.Latest := by
  refine (op.run_congruence congruence_alike h.alike (fun _ _ _ _ _ => rfl) ?_).2.latest₁
  intro t₁ t₂ w action _ ht h₁ h₂
  have hwriting : t₁.writing w = t₂.writing w :=
    writing_congr (ensureMutable_congr ht.limits (by rw [h₁.options, h₂.options])) (by rw [h₁.options, h₂.options])
      (h₁.id.trans h₂.id.symm) (h₁.storage.trans h₂.storage.symm) (h₁.version_eq.trans h₂.version_eq.symm) w
  refine ⟨?_, ht.latest₁.write action w.kind w.write, ht.latest₂.write action w.kind w.write, fun k => ?_, ?_⟩
  · exact (congrArg Prod.fst (write_eq_writing ht.latest₁.isOpen action w)).trans
      (hwriting ▸ (congrArg Prod.fst (write_eq_writing ht.latest₂.isOpen action w)).symm)
  · rw [cache_of_caches (caches_write ..) (options_write ..), cache_of_caches (caches_write ..) (options_write ..)]
    exact ht.cache k
  · rw [options_write, options_write]
    exact ht.limits

namespace Session

variable {s : Session C}

theorem latest_runAll : ∀ (ops : List (TableOp C)) {s : Session C}, s.Latest → (s.runAll ops).2.Latest
  | [], _, h => h
  | op :: rest, _, h => latest_runAll rest (op.latest_run h)

theorem latest_begun {r : Repository C} (h : r.Sound) (options : TxOptions) : (r.begun options).Latest where
  isOpen := rfl
  valid := rfl
  sound := by
    have hbegun : (r.start options).2.session? (r.lastTx + 1) = some (r.begun options) := by
      rw [Repository.session?_start, if_pos rfl]
    exact ((Repository.sound_start h options).session _ _ hbegun).2.2.2
  newest := rfl

/-- What the end of a transaction comes to if no lock is in its way: its answer, and its storage. -/
def unopposed (s : Session C) : Closing → Except Error Unit × Storage C
  | .commit =>
    if s.tx.isMutable then
      match s.replayed with
      | (.error e, storage) => (.error e, storage.rollback s.tx.id)
      | (.ok (), storage) => (.ok (), if storage.touched.contains s.tx.id then storage.publish s.tx.id else storage)
    else (.ok (), s.storage)
  | .rollback => (.ok (), if s.tx.isMutable then s.storage.rollback s.tx.id else s.storage)

theorem Latest.commit_eq (h : s.Latest) : (s.commit.1, s.commit.2.storage) = s.unopposed .commit := by
  have hlocks := (checkLocks_replayed_iff h.sound.storage).2 fun k c _ => h.not_stale k c
  rcases s.commit_spec with ⟨hi, -⟩ | ⟨-, hc⟩
  · rw [h.valid] at hi
    cases hi
  unfold unopposed
  cases hc with
  | refused _ _ _ closed => exact absurd h.isOpen closed
  | idle done _ hm hst _ _ => rw [done, hst, hm, if_neg Bool.false_ne_true]
  | ends same _ hm hst _ _ =>
    rw [same, hst, hm, if_pos rfl]
    cases s.commitWrites_spec.1 with
    | failed e failed storage reason =>
      -- no lock is stale, so that only the queue can have failed
      have hr : s.replayed.1 = .error e := reason.resolve_right fun ⟨_, _, _, hl, _⟩ => by
        rw [hlocks] at hl
        cases hl
      rw [failed, storage, show s.replayed = (.error e, s.replayed.2) from Prod.ext hr rfl]
    | unwritten done storage hr untouched =>
      rw [done, storage, show s.replayed = (.ok (), s.replayed.2) from Prod.ext hr rfl]
      dsimp only
      rw [untouched, if_neg Bool.false_ne_true]
    | published done storage hr touched _ =>
      rw [done, storage, show s.replayed = (.ok (), s.replayed.2) from Prod.ext hr rfl]
      dsimp only
      rw [touched, if_pos rfl]

theorem Latest.conclude_eq (h : s.Latest) (closing : Closing) :
    ((s.conclude closing).1, (s.conclude closing).2.storage) = s.unopposed closing := by
  cases closing with
  | commit => exact h.commit_eq
  | rollback =>
    unfold conclude unopposed
    cases s.rollback_spec with
    | refused _ _ _ closed => exact absurd h.isOpen closed
    | idle done _ hm hst _ _ =>
      dsimp only
      rw [done, hst, hm, if_neg Bool.false_ne_true]
    | ends same _ hm hst _ _ =>
      dsimp only
      rw [same, hst, hm, if_pos rfl]
      rfl

/-- The end of a transaction depends on its number, its rights, its storage and its queue alone. -/
theorem unopposed_congr {s₁ s₂ : Session C} (hid : s₁.tx.id = s₂.tx.id) (hm : s₁.tx.isMutable = s₂.tx.isMutable)
    (hreplayed : s₁.replayed = s₂.replayed) (hstorage : s₁.storage = s₂.storage) (closing : Closing) :
    s₁.unopposed closing = s₂.unopposed closing := by
  unfold unopposed
  rw [hid, hm, hreplayed, hstorage]

end Session

namespace Sample

/-- Halls alone. -/
@[reducible] def halls : Unit → EntityType scalars := fun _ => Hall.type "sample"

def litHall : HallId := ⟨"north", true⟩

def darkHall : HallId := ⟨"north", false⟩

/-- The halls that single lookups have found. -/
def found (told : List (Exchange halls)) : List (Option Hall) :=
  told.filterMap fun
    | ⟨.find _ _, .ok row⟩ => some row
    | _ => none

theorem flatten_halls (id : HallId) : (halls ()).flatten id = .ok [some (.string id.name)] := by
  obtain ⟨name, lit⟩ := id
  cases lit <;> rfl

theorem isComplete_halls (id : HallId) : (halls ()).IsComplete id := by
  intro c hc
  rw [flatten_halls] at hc
  cases hc
  rfl

end Sample

end EntityStore
