import EntityStore.Proofs.Serial
/-!
# The diary of a repository

A `Diary` writes down what is said in every transaction, and in which order those that have queued writes commit.
`Session.Recalls` is what holds of an open transaction: it would have said the same on any storage that agrees with its
own wherever it holds a lock.  `Explains` is what holds of a storage: its published rows are those that the writers
leave one after another.  A commit of a queue goes from the first to the second (`Explains.write`), and so does a commit
without writes (`Explains.read`).
-/
namespace EntityStore

variable {X : Scalars} {κ : Type} [DecidableEq κ] {C : κ → EntityType X}

/-- Every transaction that starts may write, does not scan and queues its writes, and no snapshot is loaded. -/
def Action.IsPlain : Action C → Prop
  | .start options => options.isReadWrite = true ∧ options.isScan = false ∧ options.isImmediate = false
  | .loadSnapshot _ => False
  | _ => True

/-- What was said in transactions, and which of them have committed. -/
structure Diary (C : κ → EntityType X) where
  /-- The statements of a transaction with their answers. -/
  told : TxId → List (Exchange C) := fun _ => []
  /-- The transactions that have committed a queue, the first one first. -/
  writers : List (Job C) := []
  /-- Those that have committed without writes. -/
  readers : List (Job C) := []

namespace Diary

/-- A commit that succeeds closes the account of its transaction. -/
def noteCommit (d : Diary C) (s : Session C) : Diary C :=
  match s.commit.1 with
  | .error _ => d
  | .ok () =>
    if s.tx.pending.isEmpty then { d with readers := d.readers ++ [⟨s.tx.options, d.told s.tx.id⟩] }
    else { d with writers := d.writers ++ [⟨s.tx.options, d.told s.tx.id⟩] }

/-- The diary after an action on the repository `r`. -/
def note (d : Diary C) (r : Repository C) : Action C → Diary C
  | .start options => { d with told := Function.update d.told (r.start options).1 [] }
  | .statement id op =>
    { d with told := Function.update d.told id (d.told id ++ [⟨op, (r.perform (.statement id op)).1⟩]) }
  | .commit id =>
    match r.session? id with
    | some s => d.noteCommit s
    | none => d
  | _ => d

theorem told_note_start (d : Diary C) (r : Repository C) (options : TxOptions) :
    (d.note r (.start options)).told (r.lastTx + 1) = [] := Function.update_self ..

theorem told_note_start_of_ne (d : Diary C) (r : Repository C) (options : TxOptions) {id : TxId}
    (h : r.lastTx + 1 ≠ id) : (d.note r (.start options)).told id = d.told id := Function.update_of_ne h.symm ..

theorem told_note_statement (d : Diary C) (r : Repository C) (id : TxId) (op : TableOp C) :
    (d.note r (.statement id op)).told id = d.told id ++ [⟨op, (r.perform (.statement id op)).1⟩] :=
  Function.update_self ..

theorem told_note_statement_of_ne (d : Diary C) (r : Repository C) {id other : TxId} (op : TableOp C) (h : id ≠ other) :
    (d.note r (.statement id op)).told other = d.told other := Function.update_of_ne h.symm ..

/-- The diary after some actions. -/
def along (d : Diary C) (r : Repository C) : List (Action C) → Diary C
  | [] => d
  | a :: rest => (d.note r a).along (r.next a) rest

end Diary

/-! ## What an open transaction depends on -/

namespace Session

/-- Nothing was done in the transaction yet. -/
def IsFresh (b : Session C) (options : TxOptions) : Prop := ∃ id home, b.tx = { id, home, options }

/-- An open transaction of the repository that began as `r₀` would have said the same on any storage that agrees with
its own wherever it holds a lock, and be in the same inner state.  While its snapshot is open, it would have on any. -/
structure Recalls (s : Session C) (r₀ : Repository C) (told : List (Exchange C)) : Prop where
  home : s.tx.home = r₀.retired.length
  delayed : s.tx.options.isImmediate = false
  isMutable : s.tx.isMutable = true
  base : ∀ v, s.tx.snapshot = some v → r₀.version ≤ v
  locked : s.InsertsLocked
  repeats : ∀ b : Session C, b.IsFresh s.tx.options → b.storage.Sound →
    (s.tx.snapshot ≠ none → Agree s.tx.locks s b) →
      (b.runAll (told.map Exchange.op)).1 = told ∧ Twins s (b.runAll (told.map Exchange.op)).2

variable {s s' : Session C} {r₀ : Repository C} {told : List (Exchange C)}

theorem recalls_begun {r : Repository C} (h : r.Sound) (hplace : r.retired.length = r₀.retired.length)
    {options : TxOptions} (hp : (Action.start (C := C) options).IsPlain) : (r.begun options).Recalls r₀ [] where
  home := hplace
  delayed := hp.2.2
  isMutable := by
    have : options.isReadOnly = false := by simp [TxOptions.isReadOnly, hp.1]
    simp [Transaction.isMutable, Repository.begun, hp.2.1, this]
  base _ hv := by cases hv
  locked _ hw := by cases hw
  repeats b hb hsound _ := by
    obtain ⟨tx, storage⟩ := b
    obtain ⟨id, home, rfl⟩ := hb
    exact ⟨rfl, rfl, fun _ => rfl, rfl, rfl, hp.2.2, h.current, hsound⟩

theorem Recalls.run (h : s.Recalls r₀ told) (hbase : r₀.version ≤ s.storage.version) (op : TableOp C) :
    (op.run s).2.Recalls r₀ (told ++ [⟨op, (op.run s).1⟩]) := by
  have hstays := stays_run op (s := s) fun _ => h.delayed
  have hadv := s.advances_statement op
  have hgrows := op.grows_run s
  refine ⟨hstays.home.trans h.home, hstays.options ▸ h.delayed, isMutable_congr hstays.options ▸ h.isMutable,
    fun v hv => ?_, insertsLocked_run op h.locked, fun b hb hb' ha => ?_⟩
  · rw [← version_of_snapshot hv, hstays.version]
    unfold version
    cases hsnap : s.tx.snapshot with
    | none => exact hbase
    | some u => exact h.base u hsnap
  · have hrow : ∀ k c, (op.run s).2.row k c = s.row k c := hstays.row_eq
    have ha' : (op.run s).2.tx.snapshot ≠ none → Agree (op.run s).2.tx.locks s b :=
      fun hn k c hc => (hrow k c).symm.trans (ha hn k c hc)
    obtain ⟨htold, htwins⟩ := h.repeats b (hstays.options ▸ hb) hb' fun hn k c hc => by
      obtain ⟨v, hv⟩ := Option.ne_none_iff_exists'.1 hn
      exact ha' (by rw [hadv.snapshot v hv]; nofun) k c (hgrows k c hc)
    have hall := stays_runAll (told.map Exchange.op) (s := b) (by
      obtain ⟨id, home, hb⟩ := hb
      rw [hb]
      exact hstays.options ▸ h.delayed)
    obtain ⟨hanswer, htwins⟩ := op.run_congr htwins fun hn k c hc => (ha' hn k c hc).trans (hall.row_eq k c).symm
    rw [List.map_append, List.map_singleton, runAll_concat, htold, ← hanswer]
    exact ⟨rfl, htwins⟩

theorem Recalls.notes (h : s.Recalls r₀ told) (hn : Notes s s') (hcore : s'.tx.core = s.tx.core)
    (hcache : ∀ k, s'.tx.cache k = s.tx.cache k) : s'.Recalls r₀ told := by
  have hlocks : s'.tx.locks = s.tx.locks := (congrArg Transaction.locks hcore :)
  refine ⟨hn.reads.home.trans h.home, hn.reads.options ▸ h.delayed, isMutable_congr hn.reads.options ▸ h.isMutable,
    fun v hv => h.base v (hn.snapshot ▸ hv), fun w hw e he => ?_, fun b hb hb' ha => ?_⟩
  · rw [hlocks]
    rw [hn.reads.pending] at hw
    exact h.locked w hw e he
  · rw [hn.snapshot, hlocks] at ha
    obtain ⟨htold, ht⟩ := h.repeats b (hn.reads.options ▸ hb) hb' fun hsnap k c hc =>
      (hn.reads.row_eq k c).symm.trans (ha hsnap k c hc)
    refine ⟨htold, hcore.trans ht.core, fun k => (hcache k).trans (ht.cache k), hn.reads.closedBy.trans ht.isOpen,
      hn.reads.hasWritten.trans ht.unwritten, hn.reads.options ▸ ht.delayed, hn.reads.storage ▸ ht.sound₁, ht.sound₂⟩

/-- **What others do is behind the snapshot**, and before there is one, nothing was looked at. -/
theorem Recalls.following (h : s.Recalls r₀ told) (hs : s.Sound) {t t' : Session C} (hid : t.tx.id ≠ s.tx.id)
    (hm : t'.tx.home = s.tx.home → Storage.Moves t.tx.id s.storage t'.storage) : (s.following t').Recalls r₀ told := by
  have htx := s.tx_following t'
  refine ⟨htx ▸ h.home, htx ▸ h.delayed, htx ▸ h.isMutable, htx ▸ h.base, fun w hw e he => ?_, fun b hb hb' ha => ?_⟩
  · rw [htx] at hw ⊢
    exact h.locked w hw e he
  · rw [htx] at hb ha
    obtain ⟨htold, ht⟩ := h.repeats b hb hb' fun hn k c hc => by
      obtain ⟨v, hv⟩ := Option.ne_none_iff_exists'.1 hn
      rw [← (seesSame_following hs hv hid hm).row k c]
      exact ha hn k c hc
    refine ⟨htold, htx ▸ ht.core, htx ▸ ht.cache, htx ▸ ht.isOpen, htx ▸ ht.unwritten, htx ▸ ht.delayed, ?_, ht.sound₂⟩
    unfold Session.following
    split
    · rename_i he
      exact (hm he).sound hs.storage
    · exact hs.storage

/-- **Said alone, on a state that agrees wherever a lock is held, is what was said among others.** -/
theorem Recalls.alone (h : s.Recalls r₀ told) {r : Repository C} (hr : r.Sound)
    (ha : s.tx.snapshot ≠ none → ∀ k c, s.tx.locks.covers k c = true →
      s.row k c = r.current.published r.version k c) :
    (r.alone s.tx.options (told.map Exchange.op)).1.1 = told ∧
      Twins s ((r.begun s.tx.options).runAll (told.map Exchange.op)).2 := by
  obtain ⟨htold, htwins⟩ := h.repeats (r.begun s.tx.options) ⟨_, _, rfl⟩ hr.current fun hn k c hc =>
    (ha hn k c hc).trans (row_eq_published (s := r.begun s.tx.options) hr.current (hr.untouched_begun _) k c).symm
  rw [(Repository.alone_spec hr s.tx.options (told.map Exchange.op)).1]
  exact ⟨htold, htwins⟩

/-- **Alone, on the rows that are published, the transaction says the same and publishes the same.** -/
theorem Recalls.publishes_alone (h : s.Recalls r₀ told) (hs : s.Sound) (hpub : s.Publishes) (hp : s.tx.pending ≠ [])
    {r : Repository C} (hr : r.Sound) (hversion : r.version = s.storage.version)
    (hrows : ∀ k c, r.current.published s.storage.version k c = s.storage.published s.storage.version k c) :
    (r.alone s.tx.options (told.map Exchange.op)).1 = (told, .ok ()) ∧
      (r.alone s.tx.options (told.map Exchange.op)).2.version = s.storage.version + 1 ∧
      ∀ k c, (r.alone s.tx.options (told.map Exchange.op)).2.current.published (s.storage.version + 1) k c =
        s.commit.2.storage.published (s.storage.version + 1) k c := by
  have hfree := hs.untouched_of_delayed h.delayed
  have hbfree := hr.untouched_begun s.tx.options
  -- what is locked has not changed since the snapshot
  have hagree : ∀ k c, s.tx.locks.covers k c = true → s.row k c = r.current.published r.version k c := by
    intro k c hc
    rw [row_eq_published hs.storage hfree, hversion, hrows]
    exact (Storage.published_of_isStale_eq_false (hpub.unchanged k c hc) hs.version_le).symm
  obtain ⟨htold, htwins⟩ := h.alone hr fun _ => hagree
  obtain ⟨halone, -, hcurrent⟩ := Repository.alone_spec hr s.tx.options (told.map Exchange.op)
  have hstays := stays_runAll (told.map Exchange.op) (s := r.begun s.tx.options) h.delayed
  unfold Repository.version
  rw [hcurrent]
  rw [halone] at htold ⊢
  generalize ((r.begun s.tx.options).runAll (told.map Exchange.op)).2 = b at htwins hstays
  have hstorage : b.storage = r.current := hstays.storage
  have hbversion : b.storage.version = s.storage.version := hstorage ▸ hversion
  have hbpub : b.Publishes := by
    refine htwins.publishes hpub h.locked (fun k c hc => ?_) (hstays.version.trans (hstorage ▸ rfl))
    rw [hagree k c hc, hstays.row_eq, row_eq_published hr.current hbfree]
    rfl
  have hbp : b.tx.pending ≠ [] := htwins.pending ▸ hp
  have hrows' : ∀ k c, b.storage.published b.storage.version k c = s.storage.published s.storage.version k c := by
    intro k c
    rw [hbversion, hstorage, hrows]
  refine ⟨?_, ?_, fun k c => ?_⟩
  · rw [(commit_eq_ok_iff htwins.sound₂ hbpub.isMutable hbp).2 hbpub]
    exact congrArg (fun told => (told, Except.ok ())) htold
  · rw [hbpub.version htwins.sound₂ hbp, hbversion]
  · have hpublished :=
      htwins.published_commit hpub hbpub hp hfree (by rw [hstorage, hstays.id]; exact hbfree) hrows' k c
    rw [hbversion] at hpublished
    exact hpublished

end Session

/-! ## What the diary explains -/

/-- The published rows of a storage, version by version, are those that the writers leave one after another, with the
same answers; and each reader has seen what some first of them have left. -/
structure Explains (r₀ : Repository C) (writers readers : List (Job C)) (st : Storage C) : Prop where
  version : st.version = r₀.version + writers.length
  answers : (r₀.serially writers).1 = writers.map (fun j => (j.exchanges, .ok ()))
  versions : ∀ n ≤ writers.length, (r₀.serially (writers.take n)).2.version = r₀.version + n
  rows : ∀ n ≤ writers.length, ∀ k c,
    (r₀.serially (writers.take n)).2.current.published (r₀.version + n) k c = st.published (r₀.version + n) k c
  readers : ∀ j ∈ readers, ∃ n ≤ writers.length,
    ((r₀.serially (writers.take n)).2.alone j.options j.ops).1.1 = j.exchanges

namespace Explains

variable {r₀ : Repository C} {writers readers : List (Job C)} {st st' : Storage C}

theorem nil (r : Repository C) : Explains r [] [] r.current where
  version := rfl
  answers := rfl
  versions n hn := by
    cases Nat.le_zero.1 hn
    rfl
  rows n hn k c := by
    cases Nat.le_zero.1 hn
    rfl
  readers _ hj := by cases hj

theorem moves (h : Explains r₀ writers readers st) (hs : st.Sound) {tx : TxId} (hm : Storage.Moves tx st st')
    (hv : st'.version = st.version) : Explains r₀ writers readers st' where
  version := hv.trans h.version
  answers := h.answers
  versions := h.versions
  rows n hn k c := by
    rw [hm.published_eq hs (by rw [h.version]; omega)]
    exact h.rows n hn k c
  readers := h.readers

/-- **A transaction that commits without writes has seen what some first writers have left.** -/
theorem read {s : Session C} (h : Explains r₀ writers readers s.storage) (hr₀ : r₀.Sound) (hs : s.Sound)
    {told : List (Exchange C)} (hrec : s.Recalls r₀ told) :
    Explains r₀ writers (readers ++ [⟨s.tx.options, told⟩]) s.storage where
  version := h.version
  answers := h.answers
  versions := h.versions
  rows := h.rows
  readers j hj := by
    rcases List.mem_append.1 hj with hj | hj
    · exact h.readers j hj
    · cases List.mem_singleton.1 hj
      -- the first writers are those that its snapshot shows
      obtain ⟨n, hn, hversion⟩ : ∃ n ≤ writers.length, s.tx.snapshot ≠ none → s.version = r₀.version + n := by
        cases hsnap : s.tx.snapshot with
        | none => exact ⟨0, Nat.zero_le _, fun hne => absurd rfl hne⟩
        | some v =>
          have hle := hs.snapshot v hsnap
          have hbase := hrec.base v hsnap
          rw [h.version] at hle
          exact ⟨v - r₀.version, by omega, fun _ => by rw [Session.version_of_snapshot hsnap]; omega⟩
      refine ⟨n, hn, (hrec.alone (Repository.sound_serially _ hr₀) fun hne k c _ => ?_).1⟩
      rw [Session.row_eq_published hs.storage (hs.untouched_of_delayed hrec.delayed), hversion hne, h.versions n hn]
      exact (h.rows n hn k c).symm

theorem concat (h : Explains r₀ writers readers st) (hs : st.Sound) {tx : TxId} (hm : Storage.Moves tx st st')
    (hv : st'.version = st.version + 1) (j : Job C)
    (hanswer : ((r₀.serially writers).2.alone j.options j.ops).1 = (j.exchanges, .ok ()))
    (hversion : ((r₀.serially writers).2.alone j.options j.ops).2.version = st.version + 1)
    (hrows : ∀ k c, ((r₀.serially writers).2.alone j.options j.ops).2.current.published (st.version + 1) k c =
      st'.published (st.version + 1) k c) : Explains r₀ (writers ++ [j]) readers st' := by
  have hconcat := Repository.serially_concat j writers r₀
  have hlength : (writers ++ [j]).length = writers.length + 1 := by rw [List.length_append, List.length_singleton]
  have hlast : r₀.version + (writers.length + 1) = st.version + 1 := by rw [h.version, Nat.add_assoc]
  have hfirst : ∀ n ≤ writers.length, (writers ++ [j]).take n = writers.take n :=
    fun n hn => List.take_append_of_le_length hn
  have hall : (writers ++ [j]).take (writers.length + 1) = writers ++ [j] :=
    List.take_of_length_le (Nat.le_of_eq hlength)
  refine ⟨?_, ?_, fun n hn => ?_, fun n hn k c => ?_, fun i hi => ?_⟩
  · rw [hv, hlength, hlast]
  · rw [hconcat, h.answers, hanswer, List.map_append, List.map_singleton]
  · rw [hlength] at hn
    rcases Nat.lt_or_eq_of_le hn with hlt | rfl
    · rw [hfirst n (Nat.le_of_lt_succ hlt)]
      exact h.versions n (Nat.le_of_lt_succ hlt)
    · rw [hall, hconcat, hversion, hlast]
  · rw [hlength] at hn
    rcases Nat.lt_or_eq_of_le hn with hlt | rfl
    · have hle := Nat.le_of_lt_succ hlt
      rw [hfirst n hle, h.rows n hle, hm.published_eq hs (by rw [h.version]; exact Nat.add_le_add_left hle _)]
    · rw [hall, hconcat, hlast]
      exact hrows k c
  · obtain ⟨n, hn, hread⟩ := h.readers i hi
    exact ⟨n, hlength ▸ Nat.le_succ_of_le hn, by rw [hfirst n hn]; exact hread⟩

/-- **A transaction that commits its queue is one more writer.** -/
theorem write {s : Session C} (h : Explains r₀ writers readers s.storage) (hr₀ : r₀.Sound) (hs : s.Sound)
    {told : List (Exchange C)} (hrec : s.Recalls r₀ told) (hp : s.tx.pending ≠ []) (hok : s.commit.1 = .ok ()) :
    Explains r₀ (writers ++ [⟨s.tx.options, told⟩]) readers s.commit.2.storage := by
  have hversion := h.versions writers.length (Nat.le_refl _)
  have hrows := h.rows writers.length (Nat.le_refl _)
  rw [List.take_length, ← h.version] at hversion
  rw [List.take_length, ← h.version] at hrows
  have hpub := (Session.commit_eq_ok_iff hs.storage hrec.isMutable hp).1 hok
  obtain ⟨hanswer, hnext, hnew⟩ :=
    hrec.publishes_alone hs hpub hp (Repository.sound_serially writers hr₀) hversion hrows
  exact h.concat hs.storage s.advances_commit.moves (hpub.version hs.storage hp) ⟨s.tx.options, told⟩ hanswer hnext hnew

end Explains

end EntityStore
