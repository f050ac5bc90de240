import EntityStore.Proofs.Congruence
/-!
# Transactions one after another

`Repository.serially` runs transactions that queue their writes one at a time, each from its start to its commit.
`Repository.alone_spec` says what one such run comes to, and `Twins.commit` and `Twins.published_commit` that a commit
depends, like every statement, on the rows that are locked: it succeeds alone if it did among others, and then publishes
the same rows.
-/
namespace EntityStore

variable {X : Scalars} {κ : Type} [DecidableEq κ] {C : κ → EntityType X}

/-- A statement with its answer. -/
structure Exchange (C : κ → EntityType X) where
  op : TableOp C
  answer : Except Error op.Answer

namespace Session

/-- Runs statements one after another. -/
def runAll (s : Session C) : List (TableOp C) → List (Exchange C) × Session C
  | [] => ([], s)
  | op :: rest =>
    let (answer, s) := op.run s
    let (more, s) := s.runAll rest
    (⟨op, answer⟩ :: more, s)

/-- Ends the transaction. -/
def conclude (s : Session C) : Closing → Except Error Unit × Session C
  | .commit => s.commit
  | .rollback => s.rollback

theorem runAll_concat (op : TableOp C) : ∀ (ops : List (TableOp C)) (s : Session C),
    s.runAll (ops ++ [op]) =
      ((s.runAll ops).1 ++ [⟨op, (op.run (s.runAll ops).2).1⟩], (op.run (s.runAll ops).2).2)
  | [], _ => rfl
  | first :: rest, s => by
    show ((⟨first, (first.run s).1⟩ : Exchange C) :: ((first.run s).2.runAll (rest ++ [op])).1,
      ((first.run s).2.runAll (rest ++ [op])).2) = _
    rw [runAll_concat op rest]
    rfl

/-! ## Statements that queue their writes -/

/-- Nothing of a session changed that others or its commit could see, but for its queue. -/
structure Stays (s s' : Session C) : Prop where
  storage : s'.storage = s.storage
  id : s'.tx.id = s.tx.id
  home : s'.tx.home = s.tx.home
  options : s'.tx.options = s.tx.options
  hasWritten : s'.tx.hasWritten = s.tx.hasWritten
  closedBy : s'.tx.closedBy = s.tx.closedBy
  version : s'.version = s.version

namespace Stays

variable {s s' s'' : Session C}

omit [DecidableEq κ] in
theorem refl (s : Session C) : Stays s s := ⟨rfl, rfl, rfl, rfl, rfl, rfl, rfl⟩

omit [DecidableEq κ] in
theorem trans (h : Stays s s') (h' : Stays s' s'') : Stays s s'' :=
  ⟨h'.storage.trans h.storage, h'.id.trans h.id, h'.home.trans h.home, h'.options.trans h.options,
    h'.hasWritten.trans h.hasWritten, h'.closedBy.trans h.closedBy, h'.version.trans h.version⟩

theorem row_eq (h : Stays s s') (k : κ) (c : Cells X) : s'.row k c = s.row k c := by
  unfold row
  rw [h.storage, h.id, h.version]

end Stays

/-- **A statement of a transaction that queues its writes, or is closed, leaves the storage alone.** -/
theorem stays_run (op : TableOp C) {s : Session C} (hd : s.tx.closedBy = none → s.tx.options.isImmediate = false) :
    Stays s (op.run s).2 := by
  cases op.effect s with
  | reads h _ => exact ⟨h.storage, h.id, h.home, h.options, h.hasWritten, h.closedBy, h.version_eq⟩
  | queues w _ _ _ _ h _ =>
    refine ⟨h.storage, h.id, h.home, h.options, h.hasWritten, h.closedBy, ?_⟩
    unfold version
    rw [h.snapshot, h.storage]
  | applies w _ ho _ hi _ _ =>
    rw [hd ho] at hi
    cases hi

theorem stays_runAll : ∀ (ops : List (TableOp C)) {s : Session C}, s.tx.options.isImmediate = false →
    Stays s (s.runAll ops).2
  | [], s, _ => .refl s
  | op :: rest, s, hd => by
    have h := stays_run op (s := s) fun _ => hd
    exact h.trans (stays_runAll rest (h.options ▸ hd))

theorem advances_runAll : ∀ (ops : List (TableOp C)) (s : Session C), Advances s (s.runAll ops).2
  | [], s => .refl s
  | op :: rest, s => (s.advances_statement op).trans (advances_runAll rest _)

/-- Every queued insertion holds a lock on its row. -/
def InsertsLocked (s : Session C) : Prop :=
  ∀ w ∈ s.tx.pending.map Pending.toTableWrite, ∀ e, w.write.change = .insert e →
    s.tx.locks.covers w.kind w.write.cells = true

theorem covers_run_of_insert {op : TableOp C} {w : TableWrite C} (hw : op.write? = some w) {e : (C w.kind).Entity}
    (hi : w.write.change = .insert e) (s : Session C) : (op.run s).2.tx.locks.covers w.kind w.write.cells = true := by
  cases op.writing (TableOp.isWrite_of_write? hw) with
  | fails _ _ hnone _ => cases hnone.symm.trans hw
  | writes k w' id slot lock action a _ hw' _ _ hlock hrun =>
    cases hw'.symm.trans hw
    cases hlock e hi
    have hlocked := Locks.covers_lockRow_self (s.openTable op.kind).tx.locks k w'.cells
    show (op.runOpen _).2.tx.locks.covers k w'.cells = true
    rw [hrun]
    exact Grows.of_eq (locks_writeThrough ((s.openTable op.kind).lockRow k w'.cells) action k w' a
      (fun s => (s.tx.cache k).setSlot id slot)) k w'.cells hlocked

theorem insertsLocked_run (op : TableOp C) {s : Session C} (h : s.InsertsLocked) : (op.run s).2.InsertsLocked := by
  have hgrows := op.grows_run s
  cases op.effect s with
  | reads hr _ =>
    intro w hw e he
    rw [hr.pending] at hw
    exact hgrows _ _ (h w hw e he)
  | queues w' hw' _ _ _ hq _ =>
    intro w hw e he
    obtain ⟨action, hp⟩ := hq.pending
    rw [hp, List.map_append, List.mem_append] at hw
    rcases hw with hw | hw
    · exact hgrows _ _ (h w hw e he)
    · cases List.mem_singleton.1 hw
      exact covers_run_of_insert hw' he s
  | applies w' _ _ _ _ ha _ =>
    intro w hw e he
    rw [ha.pending] at hw
    exact hgrows _ _ (h w hw e he)

/-! ## Commits of a queue -/

/-- The queue is published: it was replayed, and nothing that is locked has a younger version. -/
structure Publishes (s : Session C) : Prop where
  isOpen : s.tx.closedBy = none
  valid : s.tx.invalidated = false
  isMutable : s.tx.isMutable = true
  replay : s.replayed.1 = .ok ()
  unchanged : ∀ k c, s.tx.locks.covers k c = true → s.storage.isStale s.version k c = false

theorem contains_touched_replayed {s : Session C} (hp : s.tx.pending ≠ []) (hr : s.replayed.1 = .ok ()) :
    s.replayed.2.touched.contains s.tx.id = true :=
  Storage.contains_touched_replay _ _ _ (fun he => hp (List.map_eq_nil_iff.1 he)) hr

theorem checkLocks_replayed_iff {s : Session C} (hs : s.storage.Sound) :
    s.replayed.2.checkLocks s.version s.tx.locks s.replayed.2.shards.keys = .ok () ↔
      ∀ k c, s.tx.locks.covers k c = true → s.storage.isStale s.version k c = false := by
  rw [(s.moves_replayed.sound hs).checkLocks_eq_ok_iff]
  unfold replayed
  simp only [Storage.isStale_replay _ _ _ _ _ _ hs]

theorem Publishes.not_refused {s : Session C} (h : s.Publishes) :
    ¬(s.tx.invalidated = true ∨ s.tx.closedBy ≠ none) := by
  rintro (hi | hc)
  · rw [h.valid] at hi
    cases hi
  · exact hc h.isOpen

theorem Publishes.not_failed {s : Session C} (h : s.Publishes) (hs : s.storage.Sound) {e : Error} :
    ¬(s.replayed.1 = .error e ∨
      s.replayed.2.checkLocks s.version s.tx.locks s.replayed.2.shards.keys ≠ .ok ()) := by
  rintro (hr | hl)
  · rw [h.replay] at hr
    cases hr
  · exact hl ((checkLocks_replayed_iff hs).2 h.unchanged)

/-- **A queue is published exactly if it can be replayed and nothing that is locked has a younger version.** -/
theorem commit_eq_ok_iff {s : Session C} (hs : s.storage.Sound) (hm : s.tx.isMutable = true) (hp : s.tx.pending ≠ []) :
    s.commit.1 = .ok () ↔ s.Publishes := by
  constructor
  · intro hok
    cases s.commit_effect with
    | refused e he _ _ =>
      rw [he] at hok
      cases hok
    | idle _ _ him _ =>
      rw [hm] at him
      cases him
    | failed e he _ _ =>
      rw [he] at hok
      cases hok
    | unwritten _ _ _ hr hu =>
      rw [contains_touched_replayed hp hr] at hu
      cases hu
    | published _ ho hi _ _ hr _ hl => exact ⟨ho, hi, hm, hr, (checkLocks_replayed_iff hs).1 hl⟩
  · intro h
    cases s.commit_effect with
    | refused e he hsame reason => exact (h.not_refused reason).elim
    | idle hok _ _ _ => exact hok
    | failed e _ _ reason => exact (h.not_failed hs reason).elim
    | unwritten hok _ _ _ _ => exact hok
    | published hok _ _ _ _ _ _ _ => exact hok

theorem Publishes.storage {s : Session C} (h : s.Publishes) (hs : s.storage.Sound) (hp : s.tx.pending ≠ []) :
    s.commit.2.storage = s.replayed.2.publish s.tx.id := by
  cases s.commit_effect with
  | refused e he hsame reason => exact (h.not_refused reason).elim
  | idle _ _ him _ =>
    rw [h.isMutable] at him
    cases him
  | failed e _ _ reason => exact (h.not_failed hs reason).elim
  | unwritten _ _ _ hr hu =>
    rw [contains_touched_replayed hp hr] at hu
    cases hu
  | published _ _ _ _ hst _ _ _ => exact hst

/-- **A commit that publishes nothing leaves the published rows and their version.** -/
theorem commit_of_not_publishes {s : Session C} (hs : s.Sound)
    (hd : s.tx.closedBy = none → s.tx.options.isImmediate = false) (h : s.commit.1 = .ok () → s.tx.pending = []) :
    s.commit.2.storage.version = s.storage.version := by
  cases s.commit_effect with
  | refused _ _ same _ => rw [same]
  | idle _ _ _ hst => rw [hst]
  | failed _ _ hst _ => exact (congrArg Storage.version hst).trans (Storage.version_replay ..)
  | unwritten _ _ hst _ _ => exact (congrArg Storage.version hst).trans (Storage.version_replay ..)
  | published hok ho _ _ _ _ ht _ =>
    unfold replayed at ht
    rw [h hok] at ht
    have := (hs.touched ht).2.2
    rw [hd ho] at this
    cases this

theorem Publishes.version {s : Session C} (h : s.Publishes) (hs : s.storage.Sound) (hp : s.tx.pending ≠ []) :
    s.commit.2.storage.version = s.storage.version + 1 := by
  rw [h.storage hs hp]
  exact congrArg Nat.succ (Storage.version_replay ..)

theorem row_eq_published {s : Session C} (hs : s.storage.Sound)
    (ht : s.storage.touched.contains s.tx.id = false) (k : κ) (c : Cells X) :
    s.row k c = s.storage.published s.version k c := by
  unfold row
  rw [Storage.read_eq, hs.draft?_of_untouched ht]
  rfl

/-- **A published queue shows its last write to each key, and else what was there.** -/
theorem Publishes.published {s : Session C} (h : s.Publishes) (hs : s.storage.Sound) (hp : s.tx.pending ≠ [])
    (ht : s.storage.touched.contains s.tx.id = false) (k : κ) (c : Cells X) :
    s.commit.2.storage.published (s.storage.version + 1) k c =
      (lastRow? (s.tx.pending.map Pending.toTableWrite) k c).getD (s.storage.published s.storage.version k c) := by
  have hv : s.replayed.2.version = s.storage.version := Storage.version_replay ..
  have hread := Storage.read_replay s.tx.id s.version _ hs h.replay (s.storage.version + 1) k c
  rw [h.storage hs hp, Storage.published_publish (s.moves_replayed.sound hs), hv, if_pos (Nat.le_refl _)]
  refine hread.trans ?_
  rw [Storage.read_eq, hs.draft?_of_untouched ht, hs.published_of_le (Nat.le_succ _)]
  rfl

/-! ## Commits of twins -/

namespace Twins

variable {s b : Session C}

/-- **What a transaction publishes among others, its twin publishes alone**, on the newest version of rows that agree
wherever it holds a lock. -/
theorem publishes (h : Twins s b) (hs : s.Publishes) (hlocked : s.InsertsLocked) (ha : Agree s.tx.locks s b)
    (hv : b.version = b.storage.version) : b.Publishes where
  isOpen := h.isOpen₂
  valid := (congrArg Transaction.invalidated h.core).symm.trans hs.valid
  isMutable := (isMutable_congr h.options.symm).trans hs.isMutable
  replay := by
    have hreplay := hs.replay
    unfold replayed at hreplay ⊢
    rw [← h.pending]
    refine Eq.trans (Eq.symm ?_) hreplay
    exact Storage.replay_congr h.sound₁ h.sound₂ ha hlocked
  unchanged k c _ := hv ▸ h.sound₂.isStale_of_le (Nat.le_refl _) k c

theorem published_commit (h : Twins s b) (hs : s.Publishes) (hb : b.Publishes) (hp : s.tx.pending ≠ [])
    (hts : s.storage.touched.contains s.tx.id = false) (htb : b.storage.touched.contains b.tx.id = false)
    (hrows : ∀ k c, b.storage.published b.storage.version k c = s.storage.published s.storage.version k c) (k : κ)
    (c : Cells X) :
    b.commit.2.storage.published (b.storage.version + 1) k c =
      s.commit.2.storage.published (s.storage.version + 1) k c := by
  rw [hs.published h.sound₁ hp hts, hb.published h.sound₂ (h.pending ▸ hp) htb, hrows, h.pending]

end Twins

end Session

/-! ## Whole transactions -/

/-- A transaction, with what was said in it. -/
structure Job (C : κ → EntityType X) where
  options : TxOptions
  exchanges : List (Exchange C)

/-- What a transaction asks for. -/
def Job.ops (j : Job C) : List (TableOp C) := j.exchanges.map Exchange.op

namespace Repository

/-- Runs statements of a transaction one after another. -/
def statements (r : Repository C) (id : TxId) : List (TableOp C) → List (Exchange C) × Repository C
  | [] => ([], r)
  | op :: rest =>
    let (answer, r) := r.perform (.statement id op)
    let (more, r) := r.statements id rest
    (⟨op, answer⟩ :: more, r)

/-- Runs a transaction from its start to its commit. -/
def alone (r : Repository C) (options : TxOptions) (ops : List (TableOp C)) :
    (List (Exchange C) × Except Error Unit) × Repository C :=
  let (id, r) := r.start options
  let (exchanges, r) := r.statements id ops
  let (answer, r) := r.commit id
  ((exchanges, answer), r)

/-- Ends a transaction. -/
def close (r : Repository C) (id : TxId) : Closing → Except Error Unit × Repository C
  | .commit => r.commit id
  | .rollback => r.rollback id

/-- Runs a transaction from its start to its end, whichever that is. -/
def single (r : Repository C) (options : TxOptions) (ops : List (TableOp C)) (closing : Closing) :
    (List (Exchange C) × Except Error Unit) × Repository C :=
  let (id, r) := r.start options
  let (exchanges, r) := r.statements id ops
  let (answer, r) := r.close id closing
  ((exchanges, answer), r)

/-- Runs transactions one at a time. -/
def serially (r : Repository C) : List (Job C) → List (List (Exchange C) × Except Error Unit) × Repository C
  | [] => ([], r)
  | j :: rest =>
    let (told, r) := r.alone j.options j.ops
    let (more, r) := r.serially rest
    (told :: more, r)

theorem serially_concat (j : Job C) : ∀ (jobs : List (Job C)) (r : Repository C),
    r.serially (jobs ++ [j]) =
      ((r.serially jobs).1 ++ [((r.serially jobs).2.alone j.options j.ops).1],
        ((r.serially jobs).2.alone j.options j.ops).2)
  | [], _ => rfl
  | first :: rest, r => by
    show ((r.alone first.options first.ops).1 :: ((r.alone first.options first.ops).2.serially (rest ++ [j])).1,
      ((r.alone first.options first.ops).2.serially (rest ++ [j])).2) = _
    rw [serially_concat j rest]
    rfl

theorem statements_spec : ∀ (ops : List (TableOp C)) {r : Repository C}, r.Sound → ∀ {id : TxId} {s : Session C},
    r.session? id = some s →
      (r.statements id ops).1 = (s.runAll ops).1 ∧ (r.statements id ops).2.session? id = some (s.runAll ops).2 ∧
        (r.statements id ops).2.Sound ∧ (r.statements id ops).2.retired.length = r.retired.length
  | [], _, h, _, _, hs => ⟨rfl, hs, h, rfl⟩
  | op :: rest, r, h, id, s, hs => by
    have hadv := s.advances_statement op
    have hstep : r.onSession id op.run = ((op.run s).1, r.putSession (op.run s).2) := onSession_of_some hs op.run
    have hself := session?_putSession_of_advances h hs hadv
    have hnext : r.next (.statement id op) = r.putSession (op.run s).2 := congrArg Prod.snd hstep
    have hsound := hnext ▸ sound_next h (.statement id op)
    obtain ⟨ih₁, ih₂, ih₃, ih₄⟩ := statements_spec rest hsound hself
    have hunfold : r.statements id (op :: rest) =
        (⟨op, (r.onSession id op.run).1⟩ :: ((r.onSession id op.run).2.statements id rest).1,
          ((r.onSession id op.run).2.statements id rest).2) := rfl
    rw [hunfold, hstep]
    refine ⟨?_, ih₂, ih₃, ih₄.trans (retired_length_putSession ..)⟩
    dsimp only
    rw [ih₁]
    rfl

/-- **A single transaction works on the current storage from its start to its end.** -/
theorem single_spec {r : Repository C} (h : r.Sound) (options : TxOptions) (ops : List (TableOp C)) (closing : Closing) :
    let s := ((r.begun options).runAll ops).2
    (r.single options ops closing).1 = (((r.begun options).runAll ops).1, (s.conclude closing).1) ∧
      (r.single options ops closing).2.Sound ∧
      (r.single options ops closing).2.current = (s.conclude closing).2.storage := by
  intro s
  have hbegun : (r.start options).2.session? (r.lastTx + 1) = some (r.begun options) := by
    rw [session?_start, if_pos rfl]
  obtain ⟨hanswers, hs, hsound, hlength⟩ := statements_spec ops (sound_start h options) hbegun
  have hhome := (Session.advances_runAll ops (r.begun options)).home
  have hclose : ((r.start options).2.statements (r.lastTx + 1) ops).2.close (r.lastTx + 1) closing =
      ((s.conclude closing).1, ((r.start options).2.statements (r.lastTx + 1) ops).2.putSession (s.conclude closing).2) := by
    cases closing with
    | commit => exact onSession_of_some hs Session.commit
    | rollback => exact onSession_of_some hs Session.rollback
  have hadv : Session.Advances s (s.conclude closing).2 := by
    cases closing with
    | commit => exact s.advances_commit
    | rollback => exact s.advances_rollback
  have hunfold : r.single options ops closing =
      ((((r.start options).2.statements (r.lastTx + 1) ops).1,
        (((r.start options).2.statements (r.lastTx + 1) ops).2.close (r.lastTx + 1) closing).1),
        (((r.start options).2.statements (r.lastTx + 1) ops).2.close (r.lastTx + 1) closing).2) := rfl
  have hlast := sound_putSession hsound hs hadv.id hadv.home hadv.moves (hadv.sound (hsound.session _ s hs).2.2.2)
  have hplace : (s.conclude closing).2.tx.home =
      ((r.start options).2.statements (r.lastTx + 1) ops).2.retired.length := by
    rw [hadv.home, hhome, hlength]
    rfl
  rw [hunfold, hanswers, hclose]
  refine ⟨rfl, hlast, ?_⟩
  dsimp only
  generalize ((r.start options).2.statements (r.lastTx + 1) ops).2 = r' at hplace
  rw [current_putSession r' (Nat.le_of_eq hplace), if_pos hplace]

/-- **A transaction that is run alone works on the current storage from its start to its commit.** -/
theorem alone_spec {r : Repository C} (h : r.Sound) (options : TxOptions) (ops : List (TableOp C)) :
    (r.alone options ops).1 = (((r.begun options).runAll ops).1, ((r.begun options).runAll ops).2.commit.1) ∧
      (r.alone options ops).2.Sound ∧
      (r.alone options ops).2.current = ((r.begun options).runAll ops).2.commit.2.storage :=
  single_spec h options ops .commit

theorem sound_serially : ∀ (jobs : List (Job C)) {r : Repository C}, r.Sound → (r.serially jobs).2.Sound
  | [], _, h => h
  | j :: rest, _, h => sound_serially rest (alone_spec h j.options j.ops).2.1

/-- The rows of a table as they are published, in canonical order. -/
def committed (r : Repository C) (k : κ) : List (Cells X × (C k).Entity) := r.current.settled.rows 0 r.current.version k

theorem committed_eq {r r' : Repository C} (h : r.Sound) (h' : r'.Sound) {k : κ}
    (hrows : ∀ c, r'.current.published r'.current.version k c = r.current.published r.current.version k c) :
    r'.committed k = r.committed k := by
  refine Storage.rows_eq_of_read_eq (Storage.sound_settled h.current) (Storage.sound_settled h'.current) fun c => ?_
  rw [Storage.read_eq, Storage.read_eq, Storage.draft?_settled, Storage.draft?_settled, Storage.published_settled,
    Storage.published_settled]
  exact hrows c

end Repository

end EntityStore
