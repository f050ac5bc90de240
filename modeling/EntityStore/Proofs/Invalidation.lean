import EntityStore.Proofs.Absence
import EntityStore.Proofs.Closed
import EntityStore.Proofs.Footprint
import EntityStore.Proofs.Publication
import EntityStore.Proofs.Serializability
import EntityStore.Proofs.StoredKeys
import EntityStore.Proofs.WriteAttempts
/-!
# Invalidated transactions

Once a transaction has applied a write, each of its reads that asks the store first looks for a version under the keys
that it has locked in the table (`Session.Clash`).  If there is one, the read fails and the transaction is invalidated,
and nothing else invalidates it (`TableOp.checks_run`, `Repository.invalidated_iff_clashed`).  It stays so and cannot
commit (`Repository.Doomed`), and it has not committed before (`Repository.valid_of_mem_commits`), so that of its writes
nothing is ever published.
-/
namespace EntityStore

variable {X : Scalars} {κ : Type} [DecidableEq κ] {C : κ → EntityType X}

/-! ## Reads that ask the store -/

/-- The statement is a read that asks the store: its identifiers are valid, and the cache does not know all of them. -/
def Session.Fetches (s : Session C) : TableOp C → Prop
  | .find k id => (∃ c, (C k).flatten id = .ok c ∧ Cells.isPartial c = false) ∧ (s.tx.cache k).contains id = false
  | .findMany k ids =>
    (∃ isPartial, Cache.arePartial (E := C k) ids.eraseDups = .ok isPartial) ∧
      ∃ id ∈ ids, (s.tx.cache k).contains id = false
  | .findUncached k ids => (∃ schema, (C k).schema = .ok schema) ∧ ∀ id ∈ ids, ∃ c, (C k).flatten id = .ok c
  | .findRange .. | .findAll .. => True
  | .insert .. | .save .. | .delete .. | .postLoad .. | .cache .. => False

namespace Session

/-- The transaction is open and has applied a write, and in the table there is a version younger than its snapshot,
under a key that the locks cover. -/
def Clash (s : Session C) (k : κ) (locks : Locks X κ) : Prop :=
  s.tx.closedBy = none ∧ s.tx.hasWritten = true ∧
    ∃ c, locks.covers k c = true ∧ s.storage.isStale s.version k c = true

/-- Before a read meets its table, it looks for a clash; if there is one, it fails and invalidates the transaction. -/
structure Checks {α : Type} (s : Session C) (k : κ) (answer : Except Error α) (s' : Session C) : Prop where
  invalidated : s'.tx.invalidated = true ↔ s.tx.invalidated = true ∨ s.Clash k s'.tx.locks
  fails : s.Clash k s'.tx.locks → ∃ message, answer = .error (.optimisticLock message)

section

variable {s s' s'' : Session C} {k : κ}

theorem exists_conflict?_iff (ho : s.tx.closedBy = none) (hs : s.storage.Sound) (k : κ) :
    (∃ e, s.conflict? k = some e) ↔ s.Clash k s.tx.locks := by
  have hlocks : ((s.storage.shard? k).getD {}).checkLocks s.version (s.tx.locks.on k) = .ok () ↔
      ∀ c, s.tx.locks.covers k c = true → s.storage.isStale s.version k c = false := by
    simp only [Storage.isStale_eq_getD]
    exact Shard.checkLocks_eq_ok_iff (hs.getD k) _ _
  unfold Clash
  rw [conflict?_eq, and_iff_right ho]
  cases s.tx.hasWritten with
  | false => simp
  | true =>
    cases hcheck : ((s.storage.shard? k).getD {}).checkLocks s.version (s.tx.locks.on k) with
    | ok u => simpa using hlocks.1 hcheck
    | error e =>
      have herror : ((s.storage.shard? k).getD {}).checkLocks s.version (s.tx.locks.on k) ≠ .ok () := by
        intro h
        cases hcheck.symm.trans h
      have hnot := mt hlocks.2 herror
      simpa using hnot

omit [DecidableEq κ] in
theorem invalidated_logStatement {α : Type} (s : Session C) (action : String) (summary : α → String)
    (result : Except Error α) : (s.logStatement action summary result).tx.invalidated = s.tx.invalidated := by
  cases result <;> rfl

/-- **A read that asks the store looks for a clash first.** -/
theorem checks_read {α : Type} (hs : s.storage.Sound) (k : κ) (action : String)
    (summary : α → String) (f : Option (Shard (C k)) → Nat → Except Error α) :
    Checks s k (s.read k action summary f).1 (s.read k action summary f).2 := by
  have hclash : s.tx.closedBy = none →
      ((∃ e, s.pin.conflict? k = some e) ↔ s.Clash k (s.read k action summary f).2.tx.locks) := by
    intro ho
    rw [locks_read]
    exact exists_conflict?_iff (s := s.pin) ho hs k
  rcases s.read_cases k action summary f with ⟨closing, hc, he⟩ | ⟨ho, e, hconflict, he⟩ | ⟨ho, hnone, he⟩
  · have hno : ∀ locks, ¬s.Clash k locks := by
      rintro locks ⟨ho, -⟩
      rw [ho] at hc
      cases hc
    rw [he]
    exact ⟨(or_iff_left (hno _)).symm, fun h => absurd h (hno _)⟩
  · have hyes := (hclash ho).1 ⟨e, hconflict⟩
    obtain ⟨message, hmessage⟩ := toError_of_conflict? hconflict
    rw [he] at hyes ⊢
    exact ⟨iff_of_true rfl (.inr hyes), fun _ => ⟨message, congrArg Except.error hmessage⟩⟩
  · have hno : ¬s.Clash k (s.read k action summary f).2.tx.locks := by
      rw [← hclash ho, hnone]
      exact nofun
    refine ⟨?_, fun h => absurd h hno⟩
    rw [or_iff_left hno, he, invalidated_logStatement]
    rfl

namespace Checks

variable {α β : Type} {answer : Except Error α} {answer' : Except Error β}

theorem after (h : Checks s' k answer s'') (hreads : Reads s s') (hvalid : s'.tx.invalidated = s.tx.invalidated) :
    Checks s k answer s'' := by
  have hclash : ∀ locks, s.Clash k locks ↔ s'.Clash k locks := by
    intro locks
    unfold Clash
    rw [hreads.closedBy, hreads.hasWritten, hreads.storage, hreads.version_eq]
  refine ⟨?_, fun hc => h.fails ((hclash _).1 hc)⟩
  rw [h.invalidated, hvalid, hclash]

/-- An error of the read is passed on, and what was cached after the read does not count. -/
theorem before (h : Checks s k answer s') (hanswer : ∀ e, answer = .error e → answer' = .error e)
    (hlocks : s''.tx.locks = s'.tx.locks) (hvalid : s''.tx.invalidated = s'.tx.invalidated) :
    Checks s k answer' s'' := by
  refine ⟨?_, fun hc => ?_⟩
  · rw [hvalid, hlocks]
    exact h.invalidated
  · rw [hlocks] at hc
    exact (h.fails hc).imp fun message he => hanswer _ he

end Checks

/-! ## Each statement -/

theorem invalidated_writeThrough {α : Type} (s : Session C) (action : String) (k : κ) (w : Write (C k)) (a : α)
    (cache : Session C → Cache (C k)) :
    (s.writeThrough action k w a cache).2.tx.invalidated = s.tx.invalidated := by
  have hwrite : (s.write action k w).2.tx.invalidated = s.tx.invalidated := by
    rcases s.write_cases action k w with ⟨e, he⟩ | ⟨-, -, -, he⟩ | ⟨-, -, -, he⟩
    · rw [he]
    · rw [he, (s.flags_apply action k w).2]
    · rw [he]
  unfold writeThrough
  generalize s.write action k w = r at hwrite
  obtain ⟨result, s'⟩ := r
  cases result <;> exact hwrite

theorem invalidated_lockIds (k : κ) : ∀ (ids : List (C k).Id) (s : Session C),
    (s.lockIds k ids).2.tx.invalidated = s.tx.invalidated
  | [], _ => rfl
  | id :: rest, s => by
    rw [lockIds]
    cases (C k).flatten id with
    | error e => rfl
    | ok cells =>
      have hrest := invalidated_lockIds k rest
        (if Cells.isPartial cells = true then s.lockScan k (.agreeing cells) else s.lockRow k cells)
      have hfirst : (if Cells.isPartial cells = true then s.lockScan k (.agreeing cells)
          else s.lockRow k cells).tx.invalidated = s.tx.invalidated := by split <;> rfl
      dsimp only
      generalize lockIds _ k rest = r at hrest
      obtain ⟨answer, s'⟩ := r
      cases answer <;> exact hrest.trans hfirst

theorem invalidated_find (k : κ) {id : (C k).Id} (hf : ¬s.Fetches (.find k id)) :
    (s.find k id).2.tx.invalidated = s.tx.invalidated := by
  unfold find
  cases hflat : (C k).flatten id with
  | error e => rfl
  | ok c =>
    dsimp only
    split
    · rfl
    · rename_i hfull
      split
      · rfl
      · rename_i hunknown
        exact absurd ⟨⟨c, hflat, by simpa using hfull⟩, by simpa using hunknown⟩ hf

theorem invalidated_findMany (k : κ) {ids : List (C k).Id} (hf : ¬s.Fetches (.findMany k ids)) :
    (s.findMany k ids).2.tx.invalidated = s.tx.invalidated := by
  have hstate := (s.tx.cache k).state_merge ids (fun wanted (s : Session C) => s.findUncached k wanted) s
  rw [findMany_eq_merge]
  refine (congrArg (fun s => s.tx.invalidated) hstate).trans ?_
  cases hsame : Cache.arePartial (E := C k) ids.eraseDups with
  | error e => rfl
  | ok isPartial =>
    have hempty : ((s.tx.cache k).unknown ids.eraseDups).isEmpty = true := by
      rw [List.isEmpty_iff, Cache.unknown, List.filter_eq_nil_iff]
      intro id hid
      by_contra hunknown
      exact hf ⟨⟨isPartial, hsame⟩, id, List.mem_eraseDups.1 hid, by simpa using hunknown⟩
    simp only [hempty, if_true]

theorem invalidated_findUncached (k : κ) {ids : List (C k).Id} (hf : ¬s.Fetches (.findUncached k ids)) :
    (s.findUncached k ids).2.tx.invalidated = s.tx.invalidated := by
  unfold findUncached
  cases hschema : (C k).schema with
  | error e => rfl
  | ok schema =>
    have hlocked := invalidated_lockIds k ids.eraseDups s
    have hkeys := fun keys => @keys_of_lockIds _ _ _ C k ids.eraseDups s keys
    dsimp only
    generalize s.lockIds k ids.eraseDups = r at hlocked hkeys
    obtain ⟨answer, s'⟩ := r
    cases answer with
    | error e => exact hlocked
    | ok keys =>
      refine absurd ⟨⟨schema, hschema⟩, fun id hid => ?_⟩ hf
      obtain ⟨c, -, hc⟩ := (hkeys keys rfl).1 id (List.mem_eraseDups.2 hid)
      exact ⟨c, hc⟩

variable (hs : s.storage.Sound)

include hs

theorem checks_findUnknown (k : κ) (id : (C k).Id) (c : Cells X) :
    Checks s k (s.findUnknown k id c).1 (s.findUnknown k id c).2 := by
  have hread := (checks_read (s := s.lockRow k c) hs k s!"find({(C k).idText id})" (rowText k)
    (fun shard v => .ok (shard.bind (fun shard => shard.read (s.lockRow k c).tx.id v c)))).after (.lockRow s k c) rfl
  unfold findUnknown
  dsimp only
  generalize (s.lockRow k c).read k _ _ _ = r at hread
  obtain ⟨answer, s'⟩ := r
  cases answer with
  | error e => exact hread.before (fun _ he => he ▸ rfl) rfl rfl
  | ok row => exact hread.before nofun rfl rfl

theorem checks_findUncached (k : κ) {ids : List (C k).Id} (hf : s.Fetches (.findUncached k ids)) :
    Checks s k (s.findUncached k ids).1 (s.findUncached k ids).2 := by
  obtain ⟨⟨schema, hschema⟩, hflat⟩ := hf
  obtain ⟨keys, hkeys⟩ := exists_keys_of_lockIds k ids.eraseDups s fun id hid => hflat id (List.mem_eraseDups.1 hid)
  have hreads := Reads.lockIds k ids.eraseDups s
  rw [findUncached_eq_read hschema hkeys]
  exact (checks_read (hreads.storage ▸ hs) k _ _ _).after hreads (invalidated_lockIds ..)

theorem checks_absorbRows (k : κ) (scan : Scan X) (action : String)
    (f : Option (Shard (C k)) → Nat → Except Error (List (C k).Entity)) :
    let r := (s.lockScan k scan).read k action (rowsText k) f
    Checks s k (r.2.absorbRows k r.1).1 (r.2.absorbRows k r.1).2 := by
  have hread := (checks_read (s := s.lockScan k scan) hs k action (rowsText k) f).after (.lockScan s k scan) rfl
  dsimp only
  generalize (s.lockScan k scan).read k action (rowsText k) f = r at hread
  obtain ⟨answer, s'⟩ := r
  cases answer with
  | error e => exact hread.before (fun _ he => he ▸ rfl) rfl rfl
  | ok rows => exact hread.before nofun rfl rfl

theorem checks_findMany (k : κ) {ids : List (C k).Id} (hf : s.Fetches (.findMany k ids)) :
    Checks s k (s.findMany k ids).1 (s.findMany k ids).2 := by
  obtain ⟨⟨isPartial, hsame⟩, id, hid, hunknown⟩ := hf
  have hids : ids ≠ [] := List.ne_nil_of_mem hid
  have hwanted : id ∈ (s.tx.cache k).unknown ids.eraseDups :=
    List.mem_filter.2 ⟨List.mem_eraseDups.2 hid, by rw [hunknown]; rfl⟩
  have hempty : ((s.tx.cache k).unknown ids.eraseDups).isEmpty = false :=
    List.isEmpty_eq_false_iff.2 (List.ne_nil_of_mem hwanted)
  have hflat : ∀ id ∈ (s.tx.cache k).unknown ids.eraseDups, ∃ c, (C k).flatten id = .ok c := fun id hid =>
    (Cache.flatten_of_arePartial hsame id (List.mem_filter.1 hid).1).imp fun _ h => h.1
  have hschema : ∃ schema, (C k).schema = .ok schema := by
    obtain ⟨c, hc⟩ := hflat id hwanted
    exact (EntityType.length_of_flatten hc).imp fun _ h => h.1
  -- what the cache does not know is asked for in one lookup, and that one checks
  have hfetches : s.Fetches (.findUncached k ((s.tx.cache k).unknown ids.eraseDups)) := ⟨hschema, hflat⟩
  have hasked := checks_findUncached hs k hfetches
  have hanswer := (s.tx.cache k).fst_merge (fun wanted (s : Session C) => s.findUncached k wanted) s hids
  have hstate := (s.tx.cache k).state_merge ids (fun wanted (s : Session C) => s.findUncached k wanted) s
  rw [hsame, hempty] at hanswer hstate
  rw [findMany_eq_merge]
  refine hasked.before (fun e he => ?_) (congrArg (fun s => s.tx.locks) hstate)
    (congrArg (fun s => s.tx.invalidated) hstate)
  rw [hanswer, if_neg Bool.false_ne_true, he]
  rfl

end

end Session

namespace TableOp

open Session

theorem checks_runOpen (op : TableOp C) {s : Session C} (hs : s.storage.Sound) (hf : s.Fetches op) :
    Checks s op.kind (op.runOpen s).1 (op.runOpen s).2 := by
  cases op with
  | find k id =>
    obtain ⟨⟨c, hflat, hfull⟩, hunknown⟩ := hf
    have hfind : s.find k id = s.findUnknown k id c := by
      unfold Session.find
      rw [hflat]
      simp only [hfull, hunknown, Bool.false_eq_true, if_false]
    show Checks s k (s.find k id).1 (s.find k id).2
    rw [hfind]
    exact checks_findUnknown hs k id c
  | findMany k ids => exact checks_findMany hs k hf
  | findUncached k ids => exact checks_findUncached hs k hf
  | findRange k r => exact checks_absorbRows hs k (.interval r) s!"find({r.text})" _
  | findAll k => exact checks_absorbRows hs k .table s!"findAll({(C k).table})" _
  | _ => exact hf.elim

theorem invalidated_of_isWrite (op : TableOp C) (hop : op.isWrite = true) (s : Session C) :
    (op.runOpen s).2.tx.invalidated = s.tx.invalidated := by
  cases op.writing hop with
  | fails _ _ _ hrun => rw [hrun]
  | writes k w id slot lock action a _ _ _ _ _ hrun =>
    rw [hrun, invalidated_writeThrough _ action k w a (fun s => (s.tx.cache k).setSlot id slot)]
    cases lock <;> rfl

theorem invalidated_runOpen (op : TableOp C) {s : Session C} (hf : ¬s.Fetches op) :
    (op.runOpen s).2.tx.invalidated = s.tx.invalidated := by
  cases op with
  | find k id => exact invalidated_find k hf
  | findMany k ids => exact invalidated_findMany k hf
  | findUncached k ids => exact invalidated_findUncached k hf
  | findRange k r => exact absurd trivial hf
  | findAll k => exact absurd trivial hf
  | postLoad k row => rfl
  | cache k op => rfl
  | _ => exact invalidated_of_isWrite _ rfl s

/-- **A read that asks the store looks for a clash, and no other statement does.** -/
theorem checks_run (op : TableOp C) {s : Session C} (hs : s.storage.Sound) :
    (s.Fetches op → Checks s op.kind (op.run s).1 (op.run s).2) ∧
      (¬s.Fetches op → (op.run s).2.tx.invalidated = s.tx.invalidated) := by
  have hreads := Reads.openTable s op.kind
  have hvalid := s.invalidated_openTable op.kind
  have hfetches : (s.openTable op.kind).Fetches op ↔ s.Fetches op := by
    unfold Fetches
    simp only [s.cache_openTable op.kind]
  refine ⟨fun hf => ?_, fun hf => ?_⟩
  · exact (op.checks_runOpen (hreads.storage ▸ hs) (hfetches.2 hf)).after hreads hvalid
  · exact (op.invalidated_runOpen (mt hfetches.1 hf)).trans hvalid

end TableOp

/-! ## Each turn -/

namespace Session

theorem invalidated_applyAll : ∀ (queue : List (Pending C)) (s : Session C),
    (s.applyAll queue).2.tx.invalidated = s.tx.invalidated
  | [], _ => rfl
  | p :: rest, s => by
    have hfirst := (s.flags_apply p.action p.kind p.write).2
    rw [applyAll]
    generalize s.apply p.action p.kind p.write = r at hfirst
    obtain ⟨result, s'⟩ := r
    cases result with
    | error e => exact hfirst
    | ok u => exact (invalidated_applyAll rest s').trans hfirst

theorem invalidated_commitWrites (s : Session C) : s.commitWrites.2.tx.invalidated = s.tx.invalidated := by
  have hqueue := invalidated_applyAll s.tx.pending { s with tx := { s.tx with pending := [] } }
  unfold commitWrites
  dsimp only at hqueue ⊢
  generalize { s with tx := { s.tx with pending := [] } }.applyAll s.tx.pending = r at hqueue
  obtain ⟨result, s'⟩ := r
  cases result with
  | error e => exact hqueue
  | ok u =>
    dsimp only
    split <;> exact hqueue

omit [DecidableEq κ] in
theorem invalidated_close (s : Session C) (closing : Closing) {finish : Session C → Except Error Unit × Session C}
    (h : (finish s).2.tx.invalidated = s.tx.invalidated) :
    (s.close closing finish).2.tx.invalidated = s.tx.invalidated := by
  unfold close
  cases s.tx.ensureActive with
  | error e => rfl
  | ok u =>
    cases s.tx.options.isScan with
    | true => rfl
    | false =>
      cases s.tx.options.isReadOnly with
      | true => rfl
      | false => exact (invalidated_logStatement ..).trans h

theorem invalidated_commit (s : Session C) : s.commit.2.tx.invalidated = s.tx.invalidated := by
  unfold commit
  split
  · rfl
  · exact s.invalidated_close .commit s.invalidated_commitWrites

end Session

/-- **A transaction is invalidated in its turn exactly if that is a read that asks the store and meets a clash.** -/
theorem Action.invalidated_turn (a : Action C) {s : Session C} (hs : s.storage.Sound) :
    (a.turn s).tx.invalidated = true ↔ s.tx.invalidated = true ∨
      ∃ id op, a = .statement id op ∧ s.Fetches op ∧ s.Clash op.kind (op.run s).2.tx.locks := by
  have hquiet : (a.turn s).tx.invalidated = s.tx.invalidated → (∀ id op, a ≠ .statement id op) →
      ((a.turn s).tx.invalidated = true ↔ s.tx.invalidated = true ∨
        ∃ id op, a = .statement id op ∧ s.Fetches op ∧ s.Clash op.kind (op.run s).2.tx.locks) := by
    intro hsame hother
    simp only [hsame, hother, false_and, exists_false, or_false]
  cases a with
  | statement id op =>
    show (op.run s).2.tx.invalidated = true ↔ _
    by_cases hf : s.Fetches op
    · rw [((op.checks_run hs).1 hf).invalidated]
      refine or_congr_right ⟨fun hc => ⟨id, op, rfl, hf, hc⟩, ?_⟩
      rintro ⟨_, _, heq, -, hc⟩
      cases heq
      exact hc
    · rw [(op.checks_run hs).2 hf]
      refine (or_iff_left ?_).symm
      rintro ⟨_, _, heq, hfetches, -⟩
      cases heq
      exact hf hfetches
  | openTable id k => exact hquiet (s.invalidated_openTable k) (by simp)
  | commit id => exact hquiet s.invalidated_commit (by simp)
  | rollback id => exact hquiet (s.invalidated_close .rollback rfl) (by simp)
  | release id => exact hquiet (congrArg Transaction.invalidated s.tx_release) (by simp)
  | _ => exact hquiet rfl (by simp)

/-! ## Each run -/

/-- A transaction that applies its writes at once notes each write that is accepted. -/
theorem TableOp.hasWritten_run (op : TableOp C) {s : Session C} (ho : s.tx.closedBy = none)
    (hi : s.tx.options.isImmediate = true) :
    (op.run s).2.tx.hasWritten = true ↔ s.tx.hasWritten = true ∨ ∃ w, s.accepts? op = some w := by
  have hrefused : op.write? = none ∨ (∃ e, (op.run s).1 = .error e) → ¬∃ w, s.accepts? op = some w := by
    rintro (hw | ⟨e, he⟩) ⟨w, haccepts⟩
    · unfold Session.accepts? at haccepts
      split at haccepts
      · rw [hw] at haccepts
        cases haccepts
      · cases haccepts
    · unfold Session.accepts? at haccepts
      rw [he] at haccepts
      cases haccepts
  cases op.effect s with
  | reads hr hunwritten => rw [hr.hasWritten, or_iff_left (hrefused hunwritten)]
  | queues w _ _ _ hd _ _ =>
    rw [hi] at hd
    cases hd
  | applies w hw _ hm _ _ _ =>
    rw [(op.writes hw ho hm).2.hasWritten, hi, Bool.true_and, Bool.or_eq_true]
    refine or_congr_right ?_
    unfold Session.accepts?
    cases (op.run s).1 with
    | error e => simp [Except.toOption]
    | ok answer => simp [Except.toOption, hw]

namespace Repository

/-- A transaction makes a write that is accepted. -/
def Accepts (id : TxId) (r : Repository C) (a : Action C) : Prop :=
  ∃ op s w, a = .statement id op ∧ r.session? id = some s ∧ s.accepts? op = some w

/-- In a run, a write of a transaction was accepted. -/
def Wrote (as : List (Action C)) (id : TxId) : Prop := ({} : Repository C).Happens (Accepts id) as

/-- After the history `as`, a transaction makes a read that invalidates it: the read asks the store, one of its writes
was accepted before, and in the table there is a key that is covered by its locks, those included which the read takes,
and that a commit after its snapshot has renewed. -/
def Clashes (as : List (Action C)) (id : TxId) (a : Action C) : Prop :=
  ∃ op s, a = .statement id op ∧ (({} : Repository C).after as).session? id = some s ∧ s.tx.closedBy = none ∧
    s.Fetches op ∧ Wrote as id ∧
      ∃ c, (op.run s).2.tx.locks.covers op.kind c = true ∧ Renewed as s.tx.home s.version op.kind c

/-- In a run, a transaction has made a read that invalidates it. -/
def Clashed (as : List (Action C)) (id : TxId) : Prop := ∃ before a rest, as = before ++ a :: rest ∧ Clashes before id a

theorem wrote_concat (as : List (Action C)) (a : Action C) (id : TxId) :
    Wrote (as ++ [a]) id ↔ Wrote as id ∨ Accepts id (({} : Repository C).after as) a := happens_concat ..

theorem clashed_concat (as : List (Action C)) (a : Action C) (id : TxId) :
    Clashed (as ++ [a]) id ↔ Clashed as id ∨ Clashes as id a := by
  constructor
  · rintro ⟨before, b, rest, he, hb⟩
    rcases List.eq_nil_or_concat rest with rfl | ⟨rest, c, rfl⟩
    · obtain ⟨rfl, hlast⟩ := List.append_inj' he rfl
      cases hlast
      exact .inr hb
    · rw [List.concat_eq_append, ← List.cons_append, ← List.append_assoc] at he
      obtain ⟨rfl, -⟩ := List.append_inj' he rfl
      exact .inl ⟨before, b, rest, rfl, hb⟩
  · rintro (⟨before, b, rest, rfl, hb⟩ | ha)
    · exact ⟨before, b, rest ++ [a], by simp, hb⟩
    · exact ⟨as, a, [], rfl, ha⟩

theorem not_clashed_of_lt {as : List (Action C)} {id : TxId} (hid : (({} : Repository C).after as).lastTx < id) :
    ¬Clashed as id := by
  rintro ⟨before, a, rest, rfl, op, s, -, hs, -⟩
  have hle := ((sound_after sound_empty before).session id s hs).2.1
  rw [after_append] at hid
  exact absurd (Nat.le_trans hle (lastTx_after ..)) (Nat.not_le_of_lt hid)

/-- **An open transaction that applies its writes at once has noted one exactly if one was accepted.** -/
theorem hasWritten_iff_wrote {id : TxId} (as : List (Action C)) (s : Session C)
    (hs : (({} : Repository C).after as).session? id = some s) (ho : s.tx.closedBy = none)
    (hi : s.tx.options.isImmediate = true) : s.tx.hasWritten = true ↔ Wrote as id := by
  refine open_induction (P := fun as s => s.tx.options.isImmediate = true → (s.tx.hasWritten = true ↔ Wrote as id))
    (fun as o hid _ => ?_) (fun as a s s' _ _ hne htx ih hi => ?_) (fun as op s hs ho ih hi => ?_)
    (fun as a s s' _ hother hidle ih hi => ?_) as s hs ho hi
  · refine iff_of_false nofun (mt (wrote_concat ..).1 (not_or.2 ⟨?_, ?_⟩))
    · refine not_happens_of_lt ?_ as sound_empty (Nat.lt_of_lt_of_eq (Nat.lt_succ_self _) hid)
      rintro r a ⟨_, s, _, -, hs, -⟩
      exact ⟨s, hs⟩
    · rintro ⟨_, _, _, heq, -⟩
      cases heq
  · rw [wrote_concat, htx, or_iff_left]
    · exact ih (htx ▸ hi)
    · rintro ⟨_, _, _, rfl, -⟩
      exact hne rfl
  · have hi := (s.advances_statement op).options ▸ hi
    rw [wrote_concat]
    refine (op.hasWritten_run ho hi).trans (or_congr (ih hi) ⟨?_, ?_⟩)
    · rintro ⟨w, hw⟩
      exact ⟨op, s, w, rfl, hs, hw⟩
    · rintro ⟨_, _, w, heq, hs₀, hw⟩
      cases heq
      cases hs.symm.trans hs₀
      exact ⟨w, hw⟩
  · have hreads := hidle.notes.reads
    rw [wrote_concat, hreads.hasWritten, or_iff_left]
    · exact ih (hreads.options ▸ hi)
    · rintro ⟨op, _, _, rfl, -⟩
      exact hother op rfl

theorem clashes_iff {as : List (Action C)} {id : TxId} {s : Session C}
    (hs : (({} : Repository C).after as).session? id = some s) (hi : s.tx.options.isImmediate = true) (a : Action C) :
    Clashes as id a ↔ a.actor? = some id ∧
      ∃ other op, a = .statement other op ∧ s.Fetches op ∧ s.Clash op.kind (op.run s).2.tx.locks := by
  constructor
  · rintro ⟨op, s', rfl, hs', ho, hf, hwrote, c, hc, hrenewed⟩
    cases hs.symm.trans hs'
    exact ⟨rfl, id, op, rfl, hf, ho, (hasWritten_iff_wrote as s hs ho hi).2 hwrote, c, hc,
      (isStale_iff_renewed as s hs).2 hrenewed⟩
  · rintro ⟨hact, _, op, rfl, hf, ho, hwritten, c, hc, hstale⟩
    cases hact
    exact ⟨op, s, rfl, hs, ho, hf, (hasWritten_iff_wrote as s hs ho hi).1 hwritten, c, hc,
      (isStale_iff_renewed as s hs).1 hstale⟩

/-- **A transaction that applies its writes at once is invalidated exactly if one of its reads has clashed.** -/
theorem invalidated_iff_clashed {id : TxId} (as : List (Action C)) : ∀ s : Session C,
    (({} : Repository C).after as).session? id = some s → s.tx.options.isImmediate = true →
      (s.tx.invalidated = true ↔ Clashed as id) := by
  induction as using List.reverseRecOn with
  | nil =>
    intro s hs
    cases hs
  | append_singleton as a ih =>
    intro s' hs' hi
    have hr := sound_after (sound_empty (C := C)) as
    rw [after_concat] at hs'
    rw [clashed_concat]
    rcases next_cases hr a hs' with ⟨o, rfl, rfl⟩ | ⟨s, hs, ⟨hne, htx⟩ | ⟨hact, rfl⟩⟩
    · have hid : (({} : Repository C).after as).lastTx + 1 = id := ((sound_next hr _).session id _ hs').1
      refine iff_of_false nofun (not_or.2 ⟨not_clashed_of_lt (Nat.lt_of_lt_of_eq (Nat.lt_succ_self _) hid), ?_⟩)
      rintro ⟨_, _, heq, -⟩
      cases heq
    · rw [htx, or_iff_left]
      · exact ih s hs (htx ▸ hi)
      · rintro ⟨_, _, rfl, -⟩
        exact hne rfl
    · have hi := (a.advances_turn s).options ▸ hi
      rw [a.invalidated_turn (hr.session id s hs).2.2.2.storage, ih s hs hi, clashes_iff hs hi, and_iff_right hact]

/-! ## Invalidated transactions -/

theorem valid_of_mem_commits (as : List (Action C)) : ∀ c ∈ ({} : Repository C).commits as,
    ∀ s, (({} : Repository C).after as).session? c.tx = some s → s.tx.invalidated = false := by
  induction as using List.reverseRecOn with
  | nil => exact fun c hc => by cases hc
  | append_singleton as a ih =>
    intro c hc s' hs'
    have hr := sound_after (sound_empty (C := C)) as
    rw [after_concat] at hs'
    rw [commits_concat, List.mem_append] at hc
    rcases next_cases hr a hs' with ⟨o, rfl, rfl⟩ | ⟨s, hs, ⟨hne, htx⟩ | ⟨hact, rfl⟩⟩
    · rfl
    · rw [htx]
      rcases hc with hc | hc
      · exact ih c hc s hs
      · obtain ⟨rfl, -⟩ := commit?_eq_some (Option.mem_toList.1 hc)
        exact absurd rfl hne
    · have hturn := a.invalidated_turn (hr.session c.tx s hs).2.2.2.storage
      rw [← Bool.not_eq_true, hturn]
      rcases hc with hc | hc
      · -- the commit has closed it, so that none of its reads clashes
        rintro (hinvalid | ⟨_, _, -, -, ho, -⟩)
        · rw [ih c hc s hs] at hinvalid
          cases hinvalid
        · exact (shut_of_mem_commits as c hc).closed s hs ho
      · obtain ⟨rfl, _, hs₀, hsuccess⟩ := commit?_eq_some (Option.mem_toList.1 hc)
        cases hs.symm.trans hs₀
        rintro (hinvalid | ⟨_, _, heq, -⟩)
        · rw [Session.valid_of_commit (Session.commit_of_success? hsuccess)] at hinvalid
          cases hinvalid
        · cases heq

/-- The number was used, and if there is a transaction under it, that is invalidated. -/
structure Doomed (r : Repository C) (id : TxId) : Prop where
  used : id ≤ r.lastTx
  invalidated : ∀ s, r.session? id = some s → s.tx.invalidated = true

namespace Doomed

variable {r : Repository C} {id : TxId}

/-- **What is invalidated stays so.** -/
theorem next (h : r.Doomed id) (hr : r.Sound) (a : Action C) : (r.next a).Doomed id where
  used := Nat.le_trans h.used (r.lastTx_next a)
  invalidated := kept_next (P := fun tx => tx.invalidated = true) hr h.used h.invalidated fun s hs hi =>
    (a.invalidated_turn (hr.session id s hs).2.2.2.storage).2 (.inl hi)

theorem after : ∀ (as : List (Action C)) {r : Repository C}, r.Doomed id → r.Sound → (r.after as).Doomed id
  | [], _, h, _ => h
  | a :: rest, _, h, hr => Doomed.after rest (h.next hr a) (sound_next hr a)

/-- **An invalidated transaction cannot commit**, and its commit leaves all as it is. -/
theorem commit (h : r.Doomed id) (hr : r.Sound) :
    (∃ e, (r.perform (.commit id)).1 = .error e) ∧ r.next (.commit id) = r := by
  cases hs : r.session? id with
  | none => exact ⟨fst_onSession_of_none hs _, snd_onSession_of_none hs _⟩
  | some s =>
    have hcommit : s.commit = (.error StoreError.invalidated.toError, s) := by
      unfold Session.commit
      rw [if_pos (h.invalidated s hs)]
    have hperform := onSession_of_some hs Session.commit
    rw [hcommit, putSession_of_session? hs (hr.session id s hs).1] at hperform
    exact ⟨⟨_, congrArg Prod.fst hperform⟩, congrArg Prod.snd hperform⟩

theorem ne_of_mem_commits : ∀ {as : List (Action C)} {r : Repository C}, r.Doomed id → r.Sound →
    ∀ c ∈ r.commits as, c.tx ≠ id
  | [], _, _, _, _, hc => by cases hc
  | a :: rest, r, h, hr, c, hc => by
    rcases List.mem_append.1 hc with hc | hc
    · rintro rfl
      obtain ⟨rfl, s, hs, hsuccess⟩ := commit?_eq_some (Option.mem_toList.1 hc)
      have hvalid := Session.valid_of_commit (Session.commit_of_success? hsuccess)
      rw [h.invalidated s hs] at hvalid
      cases hvalid
    · exact ne_of_mem_commits (h.next hr a) (sound_next hr a) c hc

end Doomed

/-- **Nothing of a transaction that is closed waits for its publication.** -/
theorem Shut.draft?_eq_none {r : Repository C} {id : TxId} (h : r.Shut id) (hr : r.Sound) {home : Nat}
    (hhome : home ≤ r.retired.length) (k : κ) (c : Cells X) : (r.storage home).draft? id k c = none :=
  (hr.storage home hhome).draft?_of_untouched (hr.untouched_of_closed hhome h.closed) k c

/-- **Invalidation is exact and final.**  A transaction that applies its writes at once is invalidated exactly if one of
its reads has clashed with a commit after its snapshot, and such a read fails.  From then on it stays invalidated,
whatever else is done; its commits fail and leave all as it is; nothing that it has written was or will be published, so
that no other transaction sees any of it; and after a rollback, or when it was let go of, it has no drafts. -/
theorem invalidation_exact_and_final {as : List (Action C)} {id : TxId} {s : Session C}
    (hs : (({} : Repository C).after as).session? id = some s) (hi : s.tx.options.isImmediate = true) :
    let r := ({} : Repository C).after as
    (s.tx.invalidated = true ↔ Clashed as id) ∧
    (∀ op, Clashes as id (.statement id op) →
      ∃ message, (r.perform (.statement id op)).1 = .error (.optimisticLock message)) ∧
    (s.tx.invalidated = true → ∀ bs,
      let r' := r.after bs
      let ch := ({} : Chronicle C).along {} (as ++ bs)
      (∀ s', r'.session? id = some s' → s'.tx.invalidated = true) ∧
      ((∃ e, (r'.perform (.commit id)).1 = .error e) ∧ r'.next (.commit id) = r') ∧
      (({} : Repository C).commitsOf [id] (as ++ bs) = [] ∧ ch.Tells r' ∧ (∀ p, ch.Holds p → p.tx ≠ id) ∧
        ∀ other t v, other ≠ id → r'.session? other = some t → t.tx.closedBy = none → t.tx.snapshot = some v →
          ∀ k c, t.row k c = ch.visible t.tx v k c) ∧
      ∀ a, (a = .rollback id ∨ a = .release id) → ∀ cs,
        let r'' := (r'.next a).after cs
        ∀ home ≤ r''.retired.length, ∀ k c, (r''.storage home).draft? id k c = none) := by
  intro r
  have hr : r.Sound := sound_after sound_empty as
  obtain ⟨-, hused, -, hsound⟩ := hr.session id s hs
  refine ⟨invalidated_iff_clashed as s hs hi, fun op hclash => ?_, fun hinvalid bs => ?_⟩
  · obtain ⟨-, _, _, heq, hf, hc⟩ := (clashes_iff hs hi _).1 hclash
    cases heq
    obtain ⟨message, he⟩ := ((op.checks_run hsound.storage).1 hf).fails hc
    exact ⟨message, (congrArg Prod.fst (onSession_of_some hs op.run)).trans he⟩
  · intro r' ch
    have hr' : r'.Sound := sound_after hr bs
    have hdoomed : r.Doomed id := ⟨hused, fun s' hs' => by cases hs.symm.trans hs'; exact hinvalid⟩
    have hdoomed' : r'.Doomed id := hdoomed.after bs hr
    -- a transaction that has committed was valid, and one that is invalid can no longer commit
    have hcommits : ∀ c ∈ ({} : Repository C).commits (as ++ bs), c.tx ≠ id := by
      intro c hc
      rw [commits_append] at hc
      rcases List.mem_append.1 hc with hc | hc
      · rintro rfl
        rw [valid_of_mem_commits as c hc s hs] at hinvalid
        cases hinvalid
      · exact hdoomed.ne_of_mem_commits hr c hc
    have htells : ch.Tells r' := by
      have h := Chronicle.tells_after (as ++ bs)
      rw [after_append] at h
      exact h
    refine ⟨hdoomed'.invalidated, hdoomed'.commit hr', ⟨?_, htells, fun p hp => ?_, ?_⟩, fun a ha cs => ?_⟩
    · rw [commitsOf_eq_nil_iff]
      exact fun c hc => List.mem_singleton.not.2 (hcommits c hc)
    · obtain ⟨c, hc, htx, -⟩ := Chronicle.exists_commit_of_holds hp
      exact htx ▸ hcommits c hc
    · exact fun other t v _ ht ho hv k c => htells.row_eq hr' ht ho hv k c
    · have hnext := sound_next hr' a
      have hshut := (shut_of_ended hr' hdoomed'.used ha).after cs hnext
      exact fun home hhome k c => hshut.draft?_eq_none (sound_after hnext cs) hhome k c

end Repository

namespace Sample

/-- A transaction applies a write, another one changes an item and commits, and the first one asks for that item. -/
def overtakenReader : List (Action (catalog "sample")) :=
  oneItem ++ [.start { writeMode := .immediate }, .statement 2 (.save .item (numbered 2 "second")),
    .start {}, .statement 3 (.save .item (numbered 1 "changed")), .commit 3, .statement 2 (.find .item itemIdent)]

end Sample

open Sample in
theorem Repository.invalidation_exact_and_final_overtaken :
    let r := ({} : Repository (catalog "sample")).after overtakenReader
    ∃ s, r.session? 2 = some s ∧ s.tx.options.isImmediate = true ∧ s.tx.invalidated = true ∧ Clashed overtakenReader 2 ∧
      ∀ bs, ({} : Repository (catalog "sample")).commitsOf [2] (overtakenReader ++ bs) = [] := by
  obtain ⟨s, hs⟩ : ∃ s, (({} : Repository (catalog "sample")).after overtakenReader).session? 2 = some s := ⟨_, rfl⟩
  have hi : s.tx.options.isImmediate = true := by cases hs; rfl
  have hinvalid : s.tx.invalidated = true := by cases hs; rfl
  obtain ⟨hexact, -, hfinal⟩ := invalidation_exact_and_final hs hi
  exact ⟨s, hs, hi, hinvalid, hexact.1 hinvalid, fun bs => (hfinal hinvalid bs).2.2.1.1⟩

end EntityStore
