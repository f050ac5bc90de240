import EntityStore.Proofs.Statements
/-!
# How a transaction ends

A commit replays the queue over what the transaction sees and then publishes, or takes everything back.
`Storage.replay` is the replay on the storage alone; `Session.commitWrites_spec` lists what becomes of it, and
`Session.commit_effect` and `Session.rollback_spec` put the ends of a transaction together: refused, with nothing to
finish, or finished.
-/
namespace EntityStore

variable {X : Scalars} {κ : Type} [DecidableEq κ] {C : κ → EntityType X}

/-- The write in the queue, without its words. -/
def Pending.toTableWrite (p : Pending C) : TableWrite C := ⟨p.kind, p.write⟩

/-- Applies writes in order, up to the first that is refused. -/
def Storage.replay (s : Storage C) (tx : TxId) (v : Nat) : List (TableWrite C) → Except Error Unit × Storage C
  | [] => (.ok (), s)
  | w :: rest =>
    match s.write tx v w.kind w.write with
    | (.error e, s) => (.error e, s)
    | (.ok (), s) => s.replay tx v rest

theorem Storage.moves_replay (tx : TxId) (v : Nat) : ∀ (ws : List (TableWrite C)) (s : Storage C),
    Moves tx s (s.replay tx v ws).2
  | [], s => .refl s
  | w :: rest, s => by
    have h : Moves tx s (s.write tx v w.kind w.write).2 := (Moves.refl s).write v w.kind w.write
    rw [replay]
    split
    · rename_i hr
      rw [hr] at h
      exact h
    · rename_i hr
      rw [hr] at h
      exact h.trans (moves_replay tx v rest _)

theorem Storage.version_replay (tx : TxId) (v : Nat) : ∀ (ws : List (TableWrite C)) (s : Storage C),
    (s.replay tx v ws).2.version = s.version
  | [], _ => rfl
  | w :: rest, s => by
    have h := s.version_write tx v w.kind w.write
    rw [replay]
    split
    · rename_i hr
      rw [hr] at h
      exact h
    · rename_i hr
      rw [hr] at h
      rw [version_replay tx v rest, h]

theorem Storage.published_replay (tx : TxId) (v u : Nat) (k : κ) (c : Cells X) (ws : List (TableWrite C)) {s : Storage C}
    (hs : s.Sound) : (s.replay tx v ws).2.published u k c = s.published u k c :=
  (moves_replay tx v ws s).published_eq_of_version hs (version_replay tx v ws s) u k c

namespace Session

/-- A replay was run: of the transaction only its log, its snapshot and the note that it has written changed. -/
structure Replays (s : Session C) (storage : Storage C) (s' : Session C) : Prop where
  storage : s'.storage = storage
  id : s'.tx.id = s.tx.id
  home : s'.tx.home = s.tx.home
  options : s'.tx.options = s.tx.options
  locks : s'.tx.locks = s.tx.locks
  pending : s'.tx.pending = s.tx.pending
  closedBy : s'.tx.closedBy = s.tx.closedBy
  snapshot : s'.tx.snapshot = s.tx.snapshot ∨ s'.tx.snapshot = some s.version
  version : s'.version = s.version

/-- **The queue is replayed on the storage.** -/
theorem applyAll_spec : ∀ (queue : List (Pending C)) (s : Session C),
    (s.applyAll queue).1 = (s.storage.replay s.tx.id s.version (queue.map Pending.toTableWrite)).1 ∧
    Replays s (s.storage.replay s.tx.id s.version (queue.map Pending.toTableWrite)).2 (s.applyAll queue).2
  | [], s => ⟨rfl, rfl, rfl, rfl, rfl, rfl, rfl, rfl, .inl rfl, rfl⟩
  | p :: rest, s => by
    obtain ⟨hfst, happ, hlocks⟩ := s.apply_spec p.action p.kind p.write
    rw [applyAll, List.map_cons, Storage.replay]
    generalize hr : s.apply p.action p.kind p.write = r at hfst happ hlocks
    generalize hw : s.storage.write s.tx.id s.version p.toTableWrite.kind p.toTableWrite.write = w
    have hw' : s.storage.write s.tx.id s.version p.kind p.write = w := hw
    have hst := happ.storage
    rw [hw'] at hfst
    simp only [hw'] at hst
    obtain ⟨result, s'⟩ := r
    obtain ⟨result', storage⟩ := w
    dsimp only at hfst hst happ hlocks
    subst hfst
    subst hst
    have hv : s'.version = s.version := by
      unfold version
      rw [happ.snapshot]
      rfl
    cases result with
    | error e =>
      exact ⟨rfl, rfl, happ.id, happ.home, happ.options, hlocks, happ.pending, happ.closedBy, .inr happ.snapshot, hv⟩
    | ok u =>
      obtain ⟨ih₁, ih₂⟩ := applyAll_spec rest s'
      rw [happ.id, hv] at ih₁ ih₂
      refine ⟨ih₁, ih₂.storage, ih₂.id.trans happ.id, ih₂.home.trans happ.home, ih₂.options.trans happ.options,
        ih₂.locks.trans hlocks, ih₂.pending.trans happ.pending, ih₂.closedBy.trans happ.closedBy, ?_,
        ih₂.version.trans hv⟩
      rcases ih₂.snapshot with h | h
      · exact .inr (h.trans happ.snapshot)
      · exact .inr (h.trans (congrArg some hv))

/-- What the replay of its queue makes of a session's storage. -/
def replayed (s : Session C) : Except Error Unit × Storage C :=
  s.storage.replay s.tx.id s.version (s.tx.pending.map Pending.toTableWrite)

/-- The transaction is the same but for its log, its queue, what it has noted and, perhaps, its snapshot. -/
structure Finishes (s s' : Session C) : Prop where
  id : s'.tx.id = s.tx.id
  home : s'.tx.home = s.tx.home
  options : s'.tx.options = s.tx.options
  pending : s'.tx.pending = s.tx.pending ∨ s'.tx.pending = []
  snapshot : s'.tx.snapshot = s.tx.snapshot ∨ s'.tx.snapshot = some s.version

omit [DecidableEq κ] in
theorem Finishes.logStatement {α : Type} {s s' : Session C} (h : Finishes s s') (action : String) (summary : α → String)
    (r : Except Error α) : Finishes s (s'.logStatement action summary r) := by
  have hr := Reads.logStatement s' action summary r
  refine ⟨hr.id.trans h.id, hr.home.trans h.home, hr.options.trans h.options, ?_, ?_⟩
  · rw [hr.pending]
    exact h.pending
  have hs : (s'.logStatement action summary r).tx.snapshot = s'.tx.snapshot := by cases r <;> rfl
  rw [hs]
  exact h.snapshot

/-! ## Commit -/

/-- How the replay of a queue and the publication of its drafts come out. -/
inductive CommitWrites (s : Session C) (answer : Except Error Unit) (s' : Session C) : Prop
  /-- A queued write was refused, or a lock did not hold: everything is taken back. -/
  | failed (e : Error) (failed : answer = .error e) (storage : s'.storage = s.replayed.2.rollback s.tx.id)
      (reason : s.replayed.1 = .error e ∨ (s.replayed.1 = .ok () ∧ s.replayed.2.touched.contains s.tx.id = true ∧
        ∃ conflict, s.replayed.2.checkLocks s.version s.tx.locks s.replayed.2.shards.keys = .error conflict ∧
          e = conflict.toError))
  /-- Nothing had been written. -/
  | unwritten (done : answer = .ok ()) (storage : s'.storage = s.replayed.2) (replay : s.replayed.1 = .ok ())
      (untouched : s.replayed.2.touched.contains s.tx.id = false)
  | published (done : answer = .ok ()) (storage : s'.storage = s.replayed.2.publish s.tx.id)
      (replay : s.replayed.1 = .ok ()) (touched : s.replayed.2.touched.contains s.tx.id = true)
      (locks : s.replayed.2.checkLocks s.version s.tx.locks s.replayed.2.shards.keys = .ok ())

theorem commitWrites_spec (s : Session C) :
    CommitWrites s s.commitWrites.1 s.commitWrites.2 ∧ Finishes s s.commitWrites.2 := by
  obtain ⟨hfst, hr⟩ := applyAll_spec s.tx.pending { s with tx := { s.tx with pending := [] } }
  have hfst : ({ s with tx := { s.tx with pending := [] } }.applyAll s.tx.pending).1 = s.replayed.1 := hfst
  have hr : Replays { s with tx := { s.tx with pending := [] } } s.replayed.2
      ({ s with tx := { s.tx with pending := [] } }.applyAll s.tx.pending).2 := hr
  unfold commitWrites
  dsimp only
  generalize { s with tx := { s.tx with pending := [] } }.applyAll s.tx.pending = r at hfst hr
  obtain ⟨result, s'⟩ := r
  dsimp only at hfst hr
  have hid : s'.tx.id = s.tx.id := hr.id
  have hstorage : s'.storage = s.replayed.2 := hr.storage
  have hversion : s'.version = s.version := hr.version
  have hdiscard : s'.discard.storage = s.replayed.2.rollback s.tx.id := by
    unfold discard
    rw [hid, hstorage]
  cases result with
  | error e => exact ⟨.failed e rfl hdiscard (.inl hfst.symm), hid, hr.home, hr.options, .inr hr.pending, hr.snapshot⟩
  | ok u =>
    have hlocks : s'.pin.tx.locks = s.tx.locks := hr.locks
    have hf : Finishes s s'.pin := ⟨hid, hr.home, hr.options, .inr hr.pending, .inr (congrArg some hversion)⟩
    have hpid : s'.pin.tx.id = s.tx.id := hid
    have hpst : s'.pin.storage = s.replayed.2 := hstorage
    dsimp only
    rw [hpst, hpid, version_pin, hversion, hlocks]
    rcases s.replayed.2.commit_cases s.tx.id s.version s.tx.locks with ⟨ht, hc⟩ | ⟨ht, e, he, hc⟩ | ⟨ht, hl, hc⟩
    · rw [hc]
      exact ⟨.unwritten rfl rfl hfst.symm ht, hf.id, hf.home, hf.options, hf.pending, hf.snapshot⟩
    · rw [hc]
      exact ⟨.failed e.toError rfl hdiscard (.inr ⟨hfst.symm, ht, e, he, rfl⟩), hf.id, hf.home, hf.options, hf.pending,
        hf.snapshot⟩
    · rw [hc]
      exact ⟨.published rfl rfl hfst.symm ht hl, hf.id, hf.home, hf.options, hf.pending, hf.snapshot⟩

/-- How the end of a transaction comes out. -/
inductive CloseEffect (s : Session C) (closing : Closing) (finished : Except Error Unit × Session C)
    (answer : Except Error Unit) (s' : Session C) : Prop
  /-- It was closed before. -/
  | refused (e : Error) (failed : answer = .error e) (same : s' = s) (closed : s.tx.closedBy ≠ none)
  /-- A transaction that may not write has nothing to finish. -/
  | idle (done : answer = .ok ()) (isOpen : s.tx.closedBy = none) (immutable : s.tx.isMutable = false)
      (storage : s'.storage = s.storage) (h : Finishes s s') (closed : s'.tx.closedBy = some closing)
  | ends (same : answer = finished.1) (isOpen : s.tx.closedBy = none) (isMutable : s.tx.isMutable = true)
      (storage : s'.storage = finished.2.storage) (h : Finishes s s') (closed : s'.tx.closedBy = some closing)

omit [DecidableEq κ] in
theorem closeEffect (s : Session C) (closing : Closing) (finish : Session C → Except Error Unit × Session C)
    (h : Finishes s (finish s).2) :
    CloseEffect s closing (finish s) (s.close closing finish).1 (s.close closing finish).2 := by
  have hlog : ∀ (s' : Session C), Finishes s s' → ∀ (message : String),
      Finishes s ({ s' with tx := { s'.tx with closedBy := some closing } }.logInfo message) :=
    fun s' h _ => ⟨h.id, h.home, h.options, h.pending, h.snapshot⟩
  have hidle : ∀ message : String, Finishes s (s.logInfo message) := fun _ => ⟨rfl, rfl, rfl, .inl rfl, .inl rfl⟩
  unfold close
  cases ha : s.tx.ensureActive with
  | error e =>
    refine .refused e.toError rfl rfl fun hc => ?_
    rw [(s.tx.ensureActive_eq_ok_iff).2 hc] at ha
    cases ha
  | ok u =>
    have ho := (s.tx.ensureActive_eq_ok_iff).1 ha
    cases hscan : s.tx.options.isScan with
    | true =>
      have hm : s.tx.isMutable = false := by simp [Transaction.isMutable, hscan]
      exact .idle rfl ho hm rfl (hlog _ (hidle _) _) rfl
    | false =>
      cases hread : s.tx.options.isReadOnly with
      | true =>
        have hm : s.tx.isMutable = false := by simp [Transaction.isMutable, hread]
        exact .idle rfl ho hm rfl (hlog _ (hidle _) _) rfl
      | false =>
        have hm : s.tx.isMutable = true := by simp [Transaction.isMutable, hscan, hread]
        have hst := (Reads.logStatement (finish s).2 closing.text doneText (finish s).1).storage
        exact .ends rfl ho hm hst (hlog _ (h.logStatement ..) _) rfl

/-- **How a commit comes out.**  An invalidated transaction stays as it is. -/
theorem commit_spec (s : Session C) :
    (s.tx.invalidated = true ∧ s.commit = (.error StoreError.invalidated.toError, s)) ∨
    (s.tx.invalidated = false ∧ CloseEffect s .commit s.commitWrites s.commit.1 s.commit.2) := by
  unfold commit
  cases hi : s.tx.invalidated with
  | true => exact .inl ⟨rfl, rfl⟩
  | false => exact .inr ⟨rfl, s.closeEffect .commit commitWrites s.commitWrites_spec.2⟩

theorem rollback_spec (s : Session C) : CloseEffect s .rollback s.rollbackWrites s.rollback.1 s.rollback.2 :=
  s.closeEffect .rollback rollbackWrites ⟨rfl, rfl, rfl, .inr rfl, .inl rfl⟩

/-- What a commit has come to, as one list of all cases. -/
inductive CommitEffect (s : Session C) (answer : Except Error Unit) (s' : Session C) : Prop
  /-- It was invalidated or closed before. -/
  | refused (e : Error) (failed : answer = .error e) (same : s' = s)
      (reason : s.tx.invalidated = true ∨ s.tx.closedBy ≠ none)
  /-- A transaction that may not write has nothing to commit. -/
  | idle (done : answer = .ok ()) (isOpen : s.tx.closedBy = none) (immutable : s.tx.isMutable = false)
      (storage : s'.storage = s.storage)
  | failed (e : Error) (failed : answer = .error e) (storage : s'.storage = s.replayed.2.rollback s.tx.id)
      (reason : s.replayed.1 = .error e ∨
        s.replayed.2.checkLocks s.version s.tx.locks s.replayed.2.shards.keys ≠ .ok ())
  | unwritten (done : answer = .ok ()) (isOpen : s.tx.closedBy = none) (storage : s'.storage = s.replayed.2)
      (replay : s.replayed.1 = .ok ()) (untouched : s.replayed.2.touched.contains s.tx.id = false)
  | published (done : answer = .ok ()) (isOpen : s.tx.closedBy = none) (valid : s.tx.invalidated = false)
      (isMutable : s.tx.isMutable = true) (storage : s'.storage = s.replayed.2.publish s.tx.id)
      (replay : s.replayed.1 = .ok ()) (touched : s.replayed.2.touched.contains s.tx.id = true)
      (locks : s.replayed.2.checkLocks s.version s.tx.locks s.replayed.2.shards.keys = .ok ())

theorem commit_effect (s : Session C) : CommitEffect s s.commit.1 s.commit.2 := by
  rcases s.commit_spec with ⟨hi, hc⟩ | ⟨hi, hc⟩
  · rw [hc]
    exact .refused _ rfl rfl (.inl hi)
  · cases hc with
    | refused e failed same closed => exact .refused e failed same (.inr closed)
    | idle done ho him hst _ _ => exact .idle done ho him hst
    | ends same ho hm hst _ _ =>
      cases s.commitWrites_spec.1 with
      | failed e failed hst' reason =>
        refine .failed e (same.trans failed) (hst.trans hst') ?_
        rcases reason with h | ⟨-, -, conflict, hl, -⟩
        · exact .inl h
        · exact .inr (by rw [hl]; nofun)
      | unwritten done hst' replay untouched =>
        exact .unwritten (same.trans done) ho (hst.trans hst') replay untouched
      | published done hst' replay touched locks =>
        exact .published (same.trans done) ho hi hm (hst.trans hst') replay touched locks

omit [DecidableEq κ] in
theorem CloseEffect.eq_of_isOpen {s s' : Session C} {closing : Closing} {finished : Except Error Unit × Session C}
    {answer : Except Error Unit} (h : CloseEffect s closing finished answer s') (ho : s'.tx.closedBy = none) :
    s' = s := by
  cases h with
  | refused _ _ same _ => exact same
  | idle _ _ _ _ _ closed => rw [closed] at ho; cases ho
  | ends _ _ _ _ _ closed => rw [closed] at ho; cases ho

theorem commit_of_isOpen {s : Session C} (ho : s.commit.2.tx.closedBy = none) : s.commit.2 = s := by
  rcases s.commit_spec with ⟨-, hc⟩ | ⟨-, hc⟩
  · rw [hc]
  · exact hc.eq_of_isOpen ho

theorem rollback_of_isOpen {s : Session C} (ho : s.rollback.2.tx.closedBy = none) : s.rollback.2 = s :=
  s.rollback_spec.eq_of_isOpen ho

omit [DecidableEq κ] in
theorem CloseEffect.of_closed {s s' : Session C} {closing : Closing} {finished : Except Error Unit × Session C}
    {answer : Except Error Unit} (h : CloseEffect s closing finished answer s') (hc : s.tx.closedBy ≠ none) :
    (∃ e, answer = .error e) ∧ s' = s := by
  cases h with
  | refused e failed same _ => exact ⟨⟨e, failed⟩, same⟩
  | idle _ ho _ _ _ _ => exact absurd ho hc
  | ends _ ho _ _ _ _ => exact absurd ho hc

theorem commit_of_closed {s : Session C} (hc : s.tx.closedBy ≠ none) :
    (∃ e, s.commit.1 = .error e) ∧ s.commit.2 = s := by
  rcases s.commit_spec with ⟨-, h⟩ | ⟨-, h⟩
  · rw [h]
    exact ⟨⟨_, rfl⟩, rfl⟩
  · exact h.of_closed hc

theorem isOpen_of_commit {s : Session C} (h : s.commit.1 = .ok ()) : s.tx.closedBy = none := by
  cases hc : s.tx.closedBy with
  | none => rfl
  | some closing =>
    obtain ⟨e, he⟩ := (commit_of_closed (by rw [hc]; nofun)).1
    rw [he] at h
    cases h

theorem valid_of_commit {s : Session C} (hok : s.commit.1 = .ok ()) : s.tx.invalidated = false := by
  rcases s.commit_spec with ⟨-, hrefused⟩ | ⟨hvalid, -⟩
  · rw [hrefused] at hok
    cases hok
  · exact hvalid

theorem version_commit_of_error {s : Session C} {e : Error} (h : s.commit.1 = .error e) :
    s.commit.2.storage.version = s.storage.version := by
  cases s.commit_effect with
  | refused _ _ same _ => rw [same]
  | idle _ _ _ hst => rw [hst]
  | failed _ _ hst _ => exact (congrArg Storage.version hst).trans (Storage.version_replay ..)
  | unwritten _ _ hst _ _ => exact (congrArg Storage.version hst).trans (Storage.version_replay ..)
  | published hok _ _ _ _ _ _ _ =>
    rw [hok] at h
    cases h

theorem version_rollback (s : Session C) : s.rollback.2.storage.version = s.storage.version := by
  cases s.rollback_spec with
  | refused _ _ same _ => rw [same]
  | idle _ _ _ hst _ _ => rw [hst]
  | ends _ _ _ hst _ _ =>
    rw [hst]
    rfl

theorem version_release (s : Session C) : s.release.storage.version = s.storage.version := by
  unfold release
  split <;> rfl

end Session

end EntityStore
