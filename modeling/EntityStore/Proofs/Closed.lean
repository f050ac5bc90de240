import EntityStore.Proofs.Commits
import EntityStore.Proofs.Publication
import EntityStore.Proofs.Slots
import EntityStore.Proofs.Turns
import Mathlib.Data.List.Induction
/-!
# Transactions that are closed

A closed transaction can do nothing to its repository: each of its turns only notes something in the transaction
itself (`Action.turn_of_closed`).  It refuses whatever would ask the store or write (`TableOp.fails_of_closed`), but a
read whose identifiers are all in the cache asks nothing, and is answered as before.  `Repository.closed_refuses` says
so of all that comes after a commit or a rollback; a commit of an invalidated transaction does not close it.
-/
namespace EntityStore

variable {X : Scalars} {κ : Type} [DecidableEq κ] {C : κ → EntityType X}

/-- The statement is a read or a write of entities; an empty set of identifiers asks for none. -/
def TableOp.UsesTable : TableOp C → Prop
  | .find .. | .findUncached .. | .findRange .. | .findAll .. | .insert .. | .save .. | .delete .. => True
  | .findMany _ ids => ids ≠ []
  | .postLoad .. | .cache .. => False

/-- The cache knows every identifier that the statement asks for. -/
def TableOp.IsCached (s : Session C) : TableOp C → Prop
  | .find k id => (s.tx.cache k).contains id = true
  | .findMany k ids => ∀ id ∈ ids, (s.tx.cache k).contains id = true
  | _ => False

theorem Cache.merge_of_no_answer {E : EntityType X} {σ : Type} (c : Cache E) {ids : List E.Id} (hids : ids ≠ [])
    (ask : List E.Id → σ → Except Error (List E.Entity) × σ) {s : σ} (hask : ∀ wanted, ∃ e, (ask wanted s).1 = .error e) :
    (∃ e, (c.merge ids ask s).1 = .error e) ∨ ∀ id ∈ ids, c.contains id = true := by
  cases hmerge : (c.merge ids ask s).1 with
  | error e => exact .inl ⟨e, rfl⟩
  | ok es =>
    rcases merge_eq_ok hmerge with ⟨hnil, -⟩ | ⟨-, rows, -, ⟨hknown, -⟩ | ⟨hanswer, -⟩⟩
    · exact absurd hnil hids
    · refine .inr fun id hid => ?_
      simpa using List.filter_eq_nil_iff.1 hknown id (List.mem_eraseDups.2 hid)
    · obtain ⟨e, he⟩ := hask (c.unknown ids.eraseDups)
      rw [he] at hanswer
      cases hanswer

namespace Session

variable {s : Session C}

theorem read_of_closed {α : Type} (hc : s.tx.closedBy ≠ none) (k : κ) (action : String) (summary : α → String)
    (f : Option (Shard (C k)) → Nat → Except Error α) : ∃ e, s.read k action summary f = (.error e, s) := by
  rcases s.read_cases k action summary f with ⟨closing, -, he⟩ | ⟨ho, -⟩ | ⟨ho, -⟩
  · exact ⟨_, he⟩
  · exact absurd ho hc
  · exact absurd ho hc

theorem write_of_closed (hc : s.tx.closedBy ≠ none) (action : String) (k : κ) (w : Write (C k)) :
    ∃ e, s.write action k w = (.error e, s) := by
  rcases s.write_cases action k w with he | ⟨ho, -⟩ | ⟨ho, -⟩
  · exact he
  · exact absurd ho hc
  · exact absurd ho hc

theorem findUncached_of_closed (hc : s.tx.closedBy ≠ none) (k : κ) (ids : List (C k).Id) :
    ∃ e, (s.findUncached k ids).1 = .error e := by
  unfold findUncached
  cases (C k).schema with
  | error e => exact ⟨e, rfl⟩
  | ok schema =>
    have hlocks := Reads.lockIds k ids.eraseDups s
    dsimp only
    generalize s.lockIds k ids.eraseDups = answer at hlocks
    obtain ⟨result, s'⟩ := answer
    cases result with
    | error e => exact ⟨e, rfl⟩
    | ok keys =>
      dsimp only
      exact (read_of_closed (s := s') (hlocks.closedBy ▸ hc) k _ _ _).imp fun e he => congrArg Prod.fst he

theorem scan_of_closed (hc : s.tx.closedBy ≠ none) (k : κ) (action : String)
    (f : Option (Shard (C k)) → Nat → Except Error (List (C k).Entity)) :
    ∃ e, ((s.read k action (rowsText k) f).2.absorbRows k (s.read k action (rowsText k) f).1).1 = .error e := by
  obtain ⟨e, he⟩ := read_of_closed hc k action (rowsText k) f
  rw [he]
  exact ⟨e, rfl⟩

theorem find_of_closed (hc : s.tx.closedBy ≠ none) (k : κ) (id : (C k).Id) :
    (∃ e, (s.find k id).1 = .error e) ∨ (s.tx.cache k).contains id = true := by
  unfold find
  cases (C k).flatten id with
  | error e => exact .inl ⟨e, rfl⟩
  | ok cells =>
    cases h : (s.tx.cache k).contains id with
    | true => exact .inr rfl
    | false =>
      left
      dsimp only
      split
      · exact ⟨_, rfl⟩
      · obtain ⟨e, he⟩ := read_of_closed (s := s.lockRow k cells) hc k s!"find({(C k).idText id})" (rowText k)
          (fun shard v => .ok (shard.bind (fun shard => shard.read s.tx.id v cells)))
        rw [if_neg Bool.false_ne_true]
        unfold findUnknown
        dsimp only
        have hid : (s.lockRow k cells).tx.id = s.tx.id := rfl
        rw [hid, he]
        exact ⟨e, rfl⟩

theorem findMany_of_closed (hc : s.tx.closedBy ≠ none) (k : κ) {ids : List (C k).Id} (hids : ids ≠ []) :
    (∃ e, (s.findMany k ids).1 = .error e) ∨ ∀ id ∈ ids, (s.tx.cache k).contains id = true := by
  refine ((s.tx.cache k).merge_of_no_answer hids (fun wanted (s : Session C) => s.findUncached k wanted)
    fun wanted => findUncached_of_closed hc k wanted).imp_left fun ⟨e, he⟩ => ⟨e, ?_⟩
  unfold findMany
  generalize (s.tx.cache k).merge ids (fun wanted s => s.findUncached k wanted) s = answer at he
  obtain ⟨result, c, s'⟩ := answer
  cases he
  rfl

end Session

theorem TableOp.write_of_closed (op : TableOp C) (hop : op.isWrite = true) (hc : s.tx.closedBy ≠ none) :
    ∃ e, (op.runOpen s).1 = .error e := by
  cases op.writing hop with
  | fails e _ _ hrun =>
    rw [hrun]
    exact ⟨e, rfl⟩
  | writes k w id slot lock action a _ _ _ _ _ hrun =>
    have hclosed : (s.lockRowIf lock k w.cells).tx.closedBy ≠ none :=
      (Session.Notes.lockRowIf s lock k w.cells).reads.closedBy ▸ hc
    obtain ⟨e, he⟩ := Session.write_of_closed hclosed action k w
    rw [hrun]
    unfold Session.writeThrough
    rw [he]
    exact ⟨e, rfl⟩

/-- **A closed transaction fails what its cache does not answer.** -/
theorem TableOp.fails_of_closed {op : TableOp C} (hop : op.UsesTable) {s : Session C} (hc : s.tx.closedBy ≠ none) :
    (∃ e, (op.run s).1 = .error e) ∨ op.IsCached s := by
  have hopen : (s.openTable op.kind).tx.closedBy ≠ none := (Session.Reads.openTable s op.kind).closedBy ▸ hc
  have hcache := s.cache_openTable op.kind
  unfold run
  generalize s.openTable op.kind = s' at hopen hcache
  cases op with
  | find k id =>
    refine (Session.find_of_closed hopen k id).imp_right fun h => ?_
    rw [hcache k] at h
    exact h
  | findMany k ids =>
    refine (Session.findMany_of_closed hopen k hop).imp_right fun h => ?_
    rw [hcache k] at h
    exact h
  | findUncached k ids => exact .inl (Session.findUncached_of_closed hopen k ids)
  | findRange k r => exact .inl (Session.scan_of_closed (s := s'.lockScan k (.interval r)) hopen k _ _)
  | findAll k => exact .inl (Session.scan_of_closed (s := s'.lockScan k .table) hopen k _ _)
  | postLoad k row => exact hop.elim
  | cache k op => exact hop.elim
  | _ => exact .inl (write_of_closed _ rfl hopen)

omit [DecidableEq κ] in
theorem Session.CloseEffect.closes {s s' : Session C} {closing : Closing} {finished : Except Error Unit × Session C}
    {answer : Except Error Unit} (h : CloseEffect s closing finished answer s') (ho : s.tx.closedBy = none) :
    s'.tx.closedBy ≠ none := by
  cases h with
  | refused _ _ _ closed => exact absurd ho closed
  | idle _ _ _ _ _ closed => rw [closed]; nofun
  | ends _ _ _ _ _ closed => rw [closed]; nofun

omit [DecidableEq κ] in
theorem Session.Reads.of_eq {s s' : Session C} (h : s' = s) : Session.Reads s s' := h ▸ .refl s

/-- **A turn of a closed transaction writes nothing.** -/
theorem Action.turn_of_closed (a : Action C) {s : Session C} (hc : s.tx.closedBy ≠ none) : Session.Reads s (a.turn s) := by
  cases a with
  | openTable id k => exact .openTable s k
  | statement id op =>
    cases op.effect s with
    | reads h _ => exact h
    | queues w _ ho _ _ _ _ => exact absurd ho hc
    | applies w _ ho _ _ _ _ => exact absurd ho hc
  | record id f => exact .record s f
  | commit id => exact .of_eq (Session.commit_of_closed hc).2
  | rollback id => exact .of_eq (s.rollback_spec.of_closed hc).2
  | release id =>
    have hsame : s.release = s := by
      unfold Session.release
      cases h : s.tx.closedBy with
      | none => exact absurd h hc
      | some closing => rfl
    exact .of_eq hsame
  | _ => exact .refl s

namespace Repository

/-- The number was used, and if there is a transaction under it, that is closed. -/
structure Shut (r : Repository C) (id : TxId) : Prop where
  used : id ≤ r.lastTx
  closed : ∀ s, r.session? id = some s → s.tx.closedBy ≠ none

/-- At most the transaction is another, and that reads the same snapshot if it is still there. -/
structure Spares (id : TxId) (r r' : Repository C) : Prop where
  rest : r' = { r with transactions := r'.transactions }
  others : ∀ other, id ≠ other → r'.transaction? other = r.transaction? other
  snapshot : ∀ t', r'.transaction? id = some t' → ∃ t, r.transaction? id = some t ∧ t'.snapshot = t.snapshot

variable {r : Repository C} {id : TxId}

/-- **What is closed stays closed.** -/
theorem Shut.next (h : r.Shut id) (hr : r.Sound) (a : Action C) : (r.next a).Shut id where
  used := Nat.le_trans h.used (r.lastTx_next a)
  closed := kept_next (P := fun tx => tx.closedBy ≠ none) hr h.used h.closed fun _ _ hc =>
    (a.turn_of_closed hc).closedBy ▸ hc

theorem Shut.after : ∀ (as : List (Action C)) {r : Repository C}, r.Shut id → r.Sound → (r.after as).Shut id
  | [], _, h, _ => h
  | a :: rest, _, h, hr => Shut.after rest (h.next hr a) (sound_next hr a)

theorem Shut.spares (h : r.Shut id) (hr : r.Sound) {a : Action C} (ha : a.actor? = some id) : Spares id r (r.next a) := by
  cases hs : r.session? id with
  | none =>
    rw [next_of_absent ha hs]
    exact ⟨rfl, fun _ _ => rfl, fun t ht => ⟨t, ht, rfl⟩⟩
  | some s =>
    have hreads := a.turn_of_closed (h.closed s hs)
    have hstorage : (a.turn s).storage = r.storage (a.turn s).tx.home := by
      rw [hreads.storage, hreads.home]
      exact storage_of_session? hs
    have hput := putSession_of_storage hstorage
    have hid : (a.turn s).tx.id = id := hreads.id.trans (hr.session id s hs).1
    have hsnapshot : (a.turn s).tx.snapshot = s.tx.snapshot := by
      rcases hreads.snapshot with hsame | ⟨ho, -⟩
      · exact hsame
      · exact absurd ho (h.closed s hs)
    refine ⟨?_, (frame_of_actor hr ha).2.2.2, fun t' ht' => ⟨s.tx, ((session?_eq_some_iff r id s).1 hs).1, ?_⟩⟩
    · rcases next_of_actor ha hs with hnext | ⟨-, hnext⟩
      · rw [hnext, hput]
      · rw [hnext, hput]
        rfl
    · rcases next_of_actor ha hs with hnext | ⟨-, hnext⟩
      · rw [hnext, transaction?_putSession, if_pos hid] at ht'
        cases ht'
        exact hsnapshot
      · rw [hnext] at ht'
        have hgone : ((r.putSession (a.turn s)).forget id).transaction? id = none := Dict.get?_erase .. |>.trans (if_pos rfl)
        rw [hgone] at ht'
        cases ht'

omit [DecidableEq κ] in
theorem fst_onSession_of_none {α : Type} (hs : r.session? id = none) (f : Session C → Except Error α × Session C) :
    ∃ e, (r.onSession id f).1 = .error e := by
  unfold onSession
  rw [hs]
  exact ⟨_, rfl⟩

/-- **A closed transaction refuses all but what its cache answers.** -/
theorem Shut.refuses (h : r.Shut id) :
    (∀ op : TableOp C, op.UsesTable →
      (∃ e, (r.perform (.statement id op)).1 = .error e) ∨ ∃ s, r.session? id = some s ∧ op.IsCached s) ∧
    (∃ e, (r.perform (.commit id)).1 = .error e) ∧ ∃ e, (r.perform (.rollback id)).1 = .error e := by
  cases hs : r.session? id with
  | none => exact ⟨fun op _ => .inl (fst_onSession_of_none hs op.run), fst_onSession_of_none hs _, fst_onSession_of_none hs _⟩
  | some s =>
    have hc := h.closed s hs
    have hfst : ∀ {α : Type} {f : Session C → Except Error α × Session C}, (∃ e, (f s).1 = .error e) →
        ∃ e, (r.onSession id f).1 = .error e := fun ⟨e, he⟩ => ⟨e, by rw [onSession_of_some hs]; exact he⟩
    exact ⟨fun op hop => (op.fails_of_closed hop hc).imp hfst fun hcached => ⟨s, rfl, hcached⟩,
      hfst (Session.commit_of_closed hc).1, hfst (s.rollback_spec.of_closed hc).1⟩

/-- A commit or a rollback closes an open transaction, unless it is the commit of an invalidated one. -/
theorem shut_next (hr : r.Sound) {s : Session C} (hs : r.session? id = some s) (ho : s.tx.closedBy = none)
    {a : Action C} (ha : a = .rollback id ∨ a = .commit id ∧ s.tx.invalidated = false) : (r.next a).Shut id := by
  refine ⟨Nat.le_trans (hr.session id s hs).2.1 (r.lastTx_next a), fun s' hs' => ?_⟩
  have hact : a.actor? = some id := by rcases ha with rfl | ⟨rfl, -⟩ <;> rfl
  rcases next_cases hr a hs' with ⟨o, rfl, -⟩ | ⟨t, ht, ⟨hne, -⟩ | ⟨-, rfl⟩⟩
  · cases hact
  · exact absurd hact hne
  · cases hs.symm.trans ht
    rcases ha with rfl | ⟨rfl, hvalid⟩
    · exact s.rollback_spec.closes ho
    · rcases s.commit_spec with ⟨hinvalid, -⟩ | ⟨-, heffect⟩
      · rw [hvalid] at hinvalid
        cases hinvalid
      · exact heffect.closes ho

/-- A transaction is closed after a commit or a rollback, be it that it was closed before. -/
theorem shut_of_closing (hr : r.Sound) {s : Session C} (hs : r.session? id = some s) {a : Action C}
    (ha : a = .rollback id ∨ a = .commit id ∧ s.tx.invalidated = false) : (r.next a).Shut id := by
  by_cases ho : s.tx.closedBy = none
  · exact shut_next hr hs ho ha
  · refine Shut.next ⟨(hr.session id s hs).2.1, fun s' hs' => ?_⟩ hr a
    cases hs.symm.trans hs'
    exact ho

theorem shut_of_ended (hr : r.Sound) (hid : id ≤ r.lastTx) {a : Action C} (ha : a = .rollback id ∨ a = .release id) :
    (r.next a).Shut id := by
  rcases ha with rfl | rfl
  · cases hs : r.session? id with
    | none =>
      rw [next_of_absent rfl hs]
      exact ⟨hid, fun s hs' => by rw [hs] at hs'; cases hs'⟩
    | some s => exact shut_of_closing hr hs (.inl rfl)
  · have hgone := gone_release hid
    exact ⟨hgone.used, fun s hs => by rw [hgone.absent] at hs; cases hs⟩

theorem shut_of_mem_commits (as : List (Action C)) : ∀ c ∈ ({} : Repository C).commits as,
    (({} : Repository C).after as).Shut c.tx := by
  induction as using List.reverseRecOn with
  | nil => exact fun c hc => by cases hc
  | append_singleton as a ih =>
    intro c hc
    have hr := sound_after (sound_empty (C := C)) as
    rw [after_concat]
    rw [commits_concat, List.mem_append] at hc
    rcases hc with hc | hc
    · exact (ih c hc).next hr a
    · obtain ⟨rfl, s, hs, hsuccess⟩ := commit?_eq_some (Option.mem_toList.1 hc)
      have hok := Session.commit_of_success? hsuccess
      exact shut_next hr hs (Session.isOpen_of_commit hok) (.inr ⟨rfl, Session.valid_of_commit hok⟩)

/-- **Closed means closed, but for reads from the cache.**  After a commit or a rollback of an open transaction,
whatever that has come to and whatever else has happened since, the transaction fails what its cache does not answer,
and no turn of it changes the store, another transaction or the snapshot that it reads.  A commit of an invalidated
transaction fails and leaves all as it is, so that the transaction stays open. -/
theorem closed_refuses {as : List (Action C)} {id : TxId} {s : Session C}
    (hs : (({} : Repository C).after as).session? id = some s) (ho : s.tx.closedBy = none) :
    let r := ({} : Repository C).after as
    (s.tx.invalidated = true → (∃ e, (r.perform (.commit id)).1 = .error e) ∧ r.next (.commit id) = r) ∧
    ∀ a : Action C, (a = .rollback id ∨ a = .commit id ∧ s.tx.invalidated = false) → ∀ bs,
      let r' := (r.next a).after bs
      (∀ op : TableOp C, op.UsesTable →
        (∃ e, (r'.perform (.statement id op)).1 = .error e) ∨ ∃ s', r'.session? id = some s' ∧ op.IsCached s') ∧
      (∃ e, (r'.perform (.commit id)).1 = .error e) ∧ (∃ e, (r'.perform (.rollback id)).1 = .error e) ∧
      ∀ b : Action C, b.actor? = some id → Spares id r' (r'.next b) := by
  intro r
  have hr : r.Sound := sound_after sound_empty as
  refine ⟨fun hinvalid => ?_, fun a ha bs => ?_⟩
  · have hcommit : s.commit = (.error StoreError.invalidated.toError, s) := by
      unfold Session.commit
      rw [if_pos hinvalid]
    have hperform := onSession_of_some hs Session.commit
    rw [hcommit, putSession_of_session? hs (hr.session id s hs).1] at hperform
    exact ⟨⟨_, congrArg Prod.fst hperform⟩, congrArg Prod.snd hperform⟩
  · have hsound := sound_after (sound_next hr a) bs
    have hshut := (shut_next hr hs ho ha).after bs (sound_next hr a)
    obtain ⟨hstatement, hcommit, hrollback⟩ := hshut.refuses
    exact ⟨hstatement, hcommit, hrollback, fun b hb => hshut.spares hsound hb⟩

end Repository

namespace Sample

/-- A transaction has looked for an item that there is not. -/
def lookedUp : List (Action (catalog "sample")) := [.start {}, .statement 1 (.find .item itemIdent)]

end Sample

open Sample in
theorem Repository.closed_refuses_after_commit :
    let r := ({} : Repository (catalog "sample")).after lookedUp
    ∃ s, r.session? 1 = some s ∧ s.tx.closedBy = none ∧ s.tx.invalidated = false ∧
      let r' := (r.next (.commit 1)).after [.start {}]
      (∃ e, (r'.perform (.statement 1 (.findAll .item))).1 = .error e) ∧ (∃ e, (r'.perform (.rollback 1)).1 = .error e) ∧
        Spares 1 r' (r'.next (.statement 1 (.find .item itemIdent))) := by
  obtain ⟨s, hs⟩ : ∃ s, (({} : Repository (catalog "sample")).after lookedUp).session? 1 = some s := ⟨_, rfl⟩
  have ho : s.tx.closedBy = none := by cases hs; rfl
  have hvalid : s.tx.invalidated = false := by cases hs; rfl
  obtain ⟨hstatement, -, hrollback, hspares⟩ := (closed_refuses hs ho).2 _ (.inr ⟨rfl, hvalid⟩) [.start {}]
  refine ⟨s, hs, ho, hvalid, ?_, hrollback, hspares _ rfl⟩
  rcases hstatement (.findAll .item) trivial with herror | ⟨s', -, hcached⟩
  · exact herror
  · exact hcached.elim

open Sample in
/-- What the cache remembers to be missing is told to be missing after the commit, too. -/
theorem Repository.closed_answers_from_cache :
    let r := ({} : Repository (catalog "sample")).after lookedUp
    (r.session? 1).map (fun s => s.tx.closedBy) = some none ∧ (r.perform (.commit 1)).1 = .ok () ∧
      (TableOp.find (C := catalog "sample") .item itemIdent).UsesTable ∧
      ((r.next (.commit 1)).perform (.statement 1 (.find .item itemIdent))).1 = .ok none := ⟨rfl, rfl, trivial, rfl⟩

end EntityStore
