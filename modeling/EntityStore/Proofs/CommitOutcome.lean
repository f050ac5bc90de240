import EntityStore.Proofs.Footprint
import EntityStore.Proofs.Publication
import EntityStore.Proofs.Serializability
import EntityStore.Proofs.Staleness
/-!
# The outcome of a commit

`Repository.commit_outcome` tells from the history of a repository what the commit of a transaction that queues its
writes comes to.  An insertion of a key that is taken by then refuses it; so does a key that the transaction has asked
for (`Repository.Asked`) and a later commit has renewed (`Repository.Renewed`); and nothing else does.
-/
namespace EntityStore

variable {X : Scalars} {κ : Type} [DecidableEq κ] {C : κ → EntityType X}

/-! ## Writes made in order -/

/-- A row, or none, under every key. -/
abbrev Contents (C : κ → EntityType X) : Type := (k : κ) → Cells X → Option (C k).Entity

namespace TableWrite

/-- The contents with a write made. -/
def overlay (w : TableWrite C) (rows : Contents C) : Contents C := fun k c => (w.row? k c).getD (rows k c)

/-- The identifier that an insertion finds taken. -/
def taken? (w : TableWrite C) (rows : Contents C) : Option String :=
  match w.write.change with
  | .insert e => if (rows w.kind w.write.cells).isSome then some ((C w.kind).idText ((C w.kind).idOf e)) else none
  | _ => none

end TableWrite

/-- The contents with some writes made, one after another. -/
def Contents.made (rows : Contents C) (ws : List (TableWrite C)) : Contents C := ws.foldl (fun rows w => w.overlay rows) rows

/-- The first identifier that an insertion finds taken when writes are made one after another. -/
def Contents.clash? (rows : Contents C) : List (TableWrite C) → Option String
  | [] => none
  | w :: rest => (w.taken? rows).or (Contents.clash? (w.overlay rows) rest)

theorem Contents.made_eq (ws : List (TableWrite C)) (k : κ) (c : Cells X) : ∀ rows : Contents C,
    rows.made ws k c = (lastRow? ws k c).getD (rows k c) := by
  induction ws with
  | nil => exact fun _ => rfl
  | cons w rest ih =>
    intro rows
    refine (ih (w.overlay rows)).trans ?_
    rw [lastRow?]
    cases lastRow? rest k c <;> rfl

theorem Contents.clash?_of_no_insert {ws : List (TableWrite C)} (h : ∀ w ∈ ws, ∀ e, w.write.change ≠ .insert e) :
    ∀ rows : Contents C, rows.clash? ws = none := by
  induction ws with
  | nil => exact fun _ => rfl
  | cons w rest ih =>
    intro rows
    have hfree : w.taken? rows = none := by
      unfold TableWrite.taken?
      split
      · rename_i e he
        exact absurd he (h w List.mem_cons_self e)
      · rfl
    rw [clash?, hfree, Option.none_or]
    exact ih (fun w' hw' => h w' (List.mem_cons_of_mem w hw')) _

namespace Storage

theorem fst_write_eq_taken (s : Storage C) (tx : TxId) (v : Nat) (w : TableWrite C) :
    (s.write tx v w.kind w.write).1 =
      match w.taken? (s.read tx v) with
      | some text => .error (.entityAlreadyExists text)
      | none => .ok () := by
  rw [fst_write]
  unfold TableWrite.taken?
  cases w.write.change with
  | insert e =>
    dsimp only
    split <;> rfl
  | save e => rfl
  | delete => rfl

/-- **A replay is refused exactly if an insertion finds its key taken.** -/
theorem fst_replay (tx : TxId) (v : Nat) : ∀ (ws : List (TableWrite C)) {s : Storage C}, s.Sound →
    (s.replay tx v ws).1 =
      match Contents.clash? (s.read tx v) ws with
      | some text => .error (.entityAlreadyExists text)
      | none => .ok ()
  | [], _, _ => rfl
  | w :: rest, s, hs => by
    have hfst := s.fst_write_eq_taken tx v w
    have hsound := sound_write hs tx v w.kind w.write
    have hread : (s.write tx v w.kind w.write).1 = .ok () →
        (s.write tx v w.kind w.write).2.read tx v = w.overlay (s.read tx v) := by
      intro hok
      funext k c
      exact read_write hs hok v k c
    rw [replay, Contents.clash?]
    generalize s.write tx v w.kind w.write = r at hfst hsound hread
    obtain ⟨result, s'⟩ := r
    dsimp only at hfst
    subst hfst
    cases htaken : w.taken? (s.read tx v) with
    | some text => rfl
    | none =>
      rw [htaken] at hread
      dsimp only at hsound hread ⊢
      rw [fst_replay tx v rest hsound, hread rfl, Option.none_or]

end Storage

/-! ## The commit of a queue -/

namespace Session

variable {s : Session C}

/-- An open transaction that queues its writes and can commit them. -/
structure Queueing (s : Session C) : Prop where
  isOpen : s.tx.closedBy = none
  isMutable : s.tx.isMutable = true
  delayed : s.tx.options.isImmediate = false
  valid : s.tx.invalidated = false
  queued : s.tx.pending ≠ []

/-- A key that is locked has a younger version. -/
def Conflicts (s : Session C) : Prop := ∃ k c, s.tx.locks.covers k c = true ∧ s.storage.isStale s.version k c = true

theorem Queueing.commit_eq (h : s.Queueing) : ∃ log, s.commit = (s.commitWrites.1,
    { s.commitWrites.2 with tx := { s.commitWrites.2.tx with log, closedBy := some .commit } }) := by
  have hactive := s.tx.ensureActive_eq_ok_iff.2 h.isOpen
  have hm := h.isMutable
  simp only [Transaction.isMutable, Bool.and_eq_true, Bool.not_eq_true'] at hm
  unfold commit close
  rw [h.valid, hactive]
  simp only [hm, Bool.false_eq_true, if_false]
  cases s.commitWrites.1 with
  | ok u => exact ⟨_, rfl⟩
  | error e => exact ⟨_, rfl⟩

theorem pending_commitWrites (s : Session C) : s.commitWrites.2.tx.pending = [] := by
  have hpending := (applyAll_spec s.tx.pending { s with tx := { s.tx with pending := [] } }).2.pending
  unfold commitWrites
  dsimp only
  generalize ({ s with tx := { s.tx with pending := [] } } : Session C).applyAll s.tx.pending = r at hpending
  obtain ⟨answer, s'⟩ := r
  cases answer with
  | error e => exact hpending
  | ok u =>
    dsimp only
    split <;> exact hpending

theorem not_conflicts_iff (hs : s.Sound) :
    ¬s.Conflicts ↔ s.replayed.2.checkLocks s.version s.tx.locks s.replayed.2.shards.keys = .ok () := by
  rw [checkLocks_replayed_iff hs.storage]
  simp only [Conflicts, not_exists, not_and, Bool.not_eq_true]

/-- **What the commit of a queue comes to.** -/
theorem Queueing.outcome (h : s.Queueing) (hs : s.Sound) :
    (∀ text, Contents.clash? s.row (s.tx.pending.map Pending.toTableWrite) = some text →
      s.commit.1 = .error (.entityAlreadyExists text)) ∧
    (Contents.clash? s.row (s.tx.pending.map Pending.toTableWrite) = none →
      (s.Conflicts → ∃ message, s.commit.1 = .error (.optimisticLock message)) ∧
      (¬s.Conflicts → s.commit.1 = .ok ())) := by
  have hreplay : s.replayed.1 = _ :=
    Storage.fst_replay s.tx.id s.version (s.tx.pending.map Pending.toTableWrite) hs.storage
  obtain ⟨log, hcommit⟩ := h.commit_eq
  rw [hcommit]
  dsimp only
  have hspec := s.commitWrites_spec.1
  refine ⟨fun text hclash => ?_, fun hclash => ?_⟩
  · replace hreplay : s.replayed.1 = .error (.entityAlreadyExists text) := by
      rw [hreplay, show Contents.clash? (s.storage.read s.tx.id s.version) _ = some text from hclash]
    cases hspec with
    | failed e failed _ reason =>
      rcases reason with hr | ⟨hr, -⟩
      · rw [failed, ← hr, hreplay]
      · rw [hr] at hreplay
        cases hreplay
    | unwritten _ _ hr _ =>
      rw [hr] at hreplay
      cases hreplay
    | published _ _ hr _ _ =>
      rw [hr] at hreplay
      cases hreplay
  · replace hreplay : s.replayed.1 = .ok () := by
      rw [hreplay, show Contents.clash? (s.storage.read s.tx.id s.version) _ = none from hclash]
    cases hspec with
    | failed e failed _ reason =>
      rcases reason with hr | ⟨-, -, conflict, hl, rfl⟩
      · rw [hr] at hreplay
        cases hreplay
      · obtain ⟨message, hm⟩ := Storage.toError_of_checkLocks hl
        refine ⟨fun _ => ⟨message, by rw [failed, hm]⟩, fun hno => ?_⟩
        rw [(not_conflicts_iff hs).1 hno] at hl
        cases hl
    | unwritten _ _ _ hu =>
      rw [contains_touched_replayed h.queued hreplay] at hu
      cases hu
    | published done _ _ _ hl => exact ⟨fun hc => absurd hc ((not_conflicts_iff hs).2 hl), fun _ => done⟩

theorem seesSame_of_version {t t' : Session C} (hs : s.Sound) (hid : t.tx.id ≠ s.tx.id)
    (hm : t'.tx.home = s.tx.home → Storage.Moves t.tx.id s.storage t'.storage ∧ t'.storage.version = s.storage.version) :
    SeesSame s (s.following t') := by
  unfold following
  split
  · rename_i he
    obtain ⟨hm, hversion⟩ := hm he
    have hseen : ({ s with storage := t'.storage } : Session C).version = s.version := by
      unfold version
      rw [hversion]
    refine ⟨rfl, fun k c => ?_, fun k => ?_⟩
    · unfold row
      rw [hseen]
      exact hm.read_eq hs.storage hid hs.version_le k c
    · unfold rows
      rw [hseen]
      exact hm.rows_eq hs.storage hid hs.version_le k
  · exact .refl s

end Session

/-! ## Commits in a repository -/

namespace Repository

/-- A transaction that may not write, or queues its writes, has applied none while it is open, and nothing has
invalidated it. -/
theorem valid_of_unapplied {id : TxId} (as : List (Action C)) (s : Session C)
    (hs : (({} : Repository C).after as).session? id = some s)
    (hd : s.tx.isMutable = true → s.tx.options.isImmediate = false) (ho : s.tx.closedBy = none) :
    s.tx.hasWritten = false ∧ s.tx.invalidated = false := by
  refine open_induction (P := fun _ s => (s.tx.isMutable = true →
    s.tx.options.isImmediate = false) → s.tx.hasWritten = false ∧ s.tx.invalidated = false)
    (fun _ _ _ _ => ⟨rfl, rfl⟩) (fun _ _ _ _ _ _ _ htx ih => htx ▸ ih) (fun as op s _ _ ih hd => ?_)
    (fun as a s s' _ _ hidle ih hd => ?_) as s hs ho hd
  · have hadv := s.advances_statement op
    rw [Session.isMutable_congr hadv.options, hadv.options] at hd
    obtain ⟨hwritten, hvalid⟩ := ih hd
    cases op.effect s with
    | reads h _ => exact ⟨h.hasWritten.trans hwritten, (h.valid hwritten).trans hvalid⟩
    | queues w _ _ _ _ h _ => exact ⟨h.hasWritten.trans hwritten, (h.valid hwritten).trans hvalid⟩
    | applies w _ _ hm hi _ _ =>
      rw [hd hm] at hi
      cases hi
  · have hreads := hidle.notes.reads
    rw [Session.isMutable_congr hreads.options, hreads.options] at hd
    obtain ⟨hwritten, hvalid⟩ := ih hd
    exact ⟨hreads.hasWritten.trans hwritten, hidle.invalidated.trans hvalid⟩

theorem valid_of_delayed {id : TxId} (as : List (Action C)) (s : Session C)
    (hs : (({} : Repository C).after as).session? id = some s) (hd : s.tx.options.isImmediate = false)
    (ho : s.tx.closedBy = none) : s.tx.hasWritten = false ∧ s.tx.invalidated = false :=
  valid_of_unapplied as s hs (fun _ => hd) ho

/-- Nobody but the transaction `id` can tell two states apart. -/
structure SameBut (id : TxId) (r r' : Repository C) : Prop where
  version : r'.version = r.version
  committed : ∀ k, r'.committed k = r.committed k
  others : ∀ other t, other ≠ id → r.session? other = some t →
    ∃ t', r'.session? other = some t' ∧ Session.SeesSame t t'

theorem sameBut_putSession {r : Repository C} (h : r.Sound) {id : TxId} {s s' : Session C} (hs : r.session? id = some s)
    (hadv : Session.Advances s s') (hversion : s'.storage.version = s.storage.version) :
    SameBut id r (r.putSession s') := by
  obtain ⟨hsid, -, hhome, hsound⟩ := h.session id s hs
  have hhome' := hadv.home ▸ hhome
  have hstorage := storage_of_session? hs
  have hcurrent : (r.putSession s').version = r.version ∧
      ∀ u k c, (r.putSession s').current.published u k c = r.current.published u k c := by
    unfold Repository.version
    rw [current_putSession r hhome']
    split
    · rename_i he
      rw [← storage_length, ← he, hadv.home, ← hstorage]
      exact ⟨hversion, hadv.moves.published_eq_of_version hsound.storage hversion⟩
    · exact ⟨rfl, fun _ _ _ => rfl⟩
  refine ⟨hcurrent.1, fun k => ?_, fun other t hne ht => ?_⟩
  · refine committed_eq h (sound_putSession h hs hadv.id hadv.home hadv.moves (hadv.sound hsound)) fun c => ?_
    rw [hcurrent.2]
    exact congrArg (fun v => r.current.published v k c) hcurrent.1
  · obtain ⟨htid, -, -, htsound⟩ := h.session other t ht
    refine ⟨t.following s', ?_, Session.seesSame_of_version (t := s) htsound ?_ fun he => ?_⟩
    · rw [session?_putSession_of_ne h hhome' (by rw [hadv.id, hsid]; exact Ne.symm hne), ht]
      rfl
    · rw [hsid, htid]
      exact Ne.symm hne
    · have hshared : t.storage = s.storage := by
        rw [storage_of_session? ht, hstorage, ← hadv.home, he]
      rw [hshared]
      exact ⟨hadv.moves, hversion⟩

/-- **The exact outcome of a commit.**  After any history, let an open transaction that may write and queues its writes
have something in its queue.  Its commit finds an insertion's key taken, when the queue is made on the rows it sees; or
else it finds a conflict, if it has asked for a key that a commit after its snapshot has renewed; or else it publishes
the queue on the newest rows.  Without insertions and without having asked for anything it is never refused.  Either way
the transaction is closed and nothing of it is left unpublished, and a refusal shows to nobody else. -/
theorem commit_outcome (as : List (Action C)) (id : TxId) (s : Session C)
    (hs : (({} : Repository C).after as).session? id = some s) (ho : s.tx.closedBy = none)
    (hm : s.tx.isMutable = true) (hd : s.tx.options.isImmediate = false) (hp : s.tx.pending ≠ []) :
    let r := ({} : Repository C).after as
    let answer := (r.perform (.commit id)).1
    let r' := r.next (.commit id)
    let queue := s.tx.pending.map Pending.toTableWrite
    let conflicts := ∃ k c, Asked as id k c ∧ Renewed as s.tx.home s.version k c
    (∀ text, Contents.clash? s.row queue = some text → answer = .error (.entityAlreadyExists text)) ∧
      (Contents.clash? s.row queue = none → conflicts → ∃ message, answer = .error (.optimisticLock message)) ∧
      (Contents.clash? s.row queue = none → ¬conflicts → answer = .ok ()) ∧
      ((∀ w ∈ queue, ∀ e, w.write.change ≠ .insert e) → (∀ k c, ¬Asked as id k c) → answer = .ok ()) ∧
      (answer = .ok () → (r'.storage s.tx.home).version = (r.storage s.tx.home).version + 1 ∧
        ∀ k c, (r'.storage s.tx.home).published (r'.storage s.tx.home).version k c =
          Contents.made ((r.storage s.tx.home).published (r.storage s.tx.home).version) queue k c) ∧
      (∀ e, answer = .error e → SameBut id r r') ∧
      ∃ s', r'.session? id = some s' ∧ s'.tx.closedBy = some .commit ∧ s'.tx.pending = [] ∧
        ∀ k c, s'.storage.draft? id k c = none := by
  intro r answer r' queue conflicts
  have hr : r.Sound := sound_after sound_empty as
  obtain ⟨hsid, -, hhome, hsound⟩ := hr.session id s hs
  have hqueueing : s.Queueing := ⟨ho, hm, hd, (valid_of_delayed as s hs hd ho).2, hp⟩
  have hadv := s.advances_commit
  have hperform : r.perform (.commit id) = (s.commit.1, r.putSession s.commit.2) := onSession_of_some hs Session.commit
  have hanswer : answer = s.commit.1 := congrArg Prod.fst hperform
  have hnext : r' = r.putSession s.commit.2 := congrArg Prod.snd hperform
  -- what the locks and the lines of the store tell is what the history tells
  have hconflicts : s.Conflicts ↔ conflicts := by
    refine exists_congr fun k => exists_congr fun c => and_congr ?_ ?_
    · exact covers_iff_asked as s hs ho
    · exact isStale_iff_renewed as s hs
  obtain ⟨hclash, hfree⟩ := hqueueing.outcome hsound
  rw [hanswer, hnext, ← hconflicts]
  have hstorage : (r.putSession s.commit.2).storage s.tx.home = s.commit.2.storage := by
    rw [storage_putSession r (hadv.home ▸ hhome) hhome, if_pos hadv.home]
  have hclosed : s.commit.2.tx.closedBy = some .commit ∧ s.commit.2.tx.pending = [] := by
    obtain ⟨log, hcommit⟩ := hqueueing.commit_eq
    rw [hcommit]
    exact ⟨rfl, s.pending_commitWrites⟩
  refine ⟨hclash, fun h => (hfree h).1, fun h => (hfree h).2, fun hblind hnone => ?_, fun hok => ?_, fun e he => ?_,
    s.commit.2, session?_putSession_of_advances hr hs hadv, hclosed.1, hclosed.2, fun k c => ?_⟩
  · refine (hfree (Contents.clash?_of_no_insert hblind _)).2 fun hc => ?_
    obtain ⟨k, c, hasked, -⟩ := hconflicts.1 hc
    exact hnone k c hasked
  · have hpublishes := (Session.commit_eq_ok_iff hsound.storage hm hp).1 hok
    have hversion := hpublishes.version hsound.storage hp
    rw [hstorage, hversion, ← storage_of_session? hs]
    refine ⟨rfl, fun k c => ?_⟩
    rw [hpublishes.published hsound.storage hp (hsound.untouched_of_delayed hd), Contents.made_eq]
  · exact sameBut_putSession hr hs hadv (Session.version_commit_of_error he)
  · have hsound' := hadv.sound hsound
    have huntouched := hsound'.untouched_of_delayed (hadv.options ▸ hd)
    rw [hadv.id, hsid] at huntouched
    exact hsound'.storage.draft?_of_untouched huntouched k c

end Repository

/-- A transaction reads an item and queues another one, and a second transaction changes the item that was read. -/
def Sample.overtaken : List (Action (Sample.catalog "sample")) :=
  Sample.oneItem ++ [.start {}, .statement 2 (.find .item (Sample.numbered 1 "").id),
    .statement 2 (.save .item (Sample.numbered 2 "second")),
    .start {}, .statement 3 (.save .item (Sample.numbered 1 "changed")), .commit 3]

open Sample in
theorem Repository.commit_outcome_overtaken :
    let r := ({} : Repository (catalog "sample")).after overtaken
    ∃ s, r.session? 2 = some s ∧ s.tx.pending ≠ [] ∧
      ∃ message, (r.perform (.commit 2)).1 = .error (.optimisticLock message) := by
  intro r
  have hasked : Asked overtaken 2 .item itemCells :=
    .inr (.inr (.inr (.inr (.inr (.inl ⟨_, _, rfl, rfl, rfl, rfl, rfl, rfl⟩)))))
  have hrenewed : Renewed overtaken 0 1 .item itemCells :=
    .inr (.inr (.inr (.inr (.inr (.inr (.inr (.inr (.inr (.inl ⟨3, _, rfl, rfl, rfl, by rfl, by decide⟩)))))))))
  obtain ⟨s, hs, hqueueing⟩ := (Option.any_eq_true (fun s : Session (catalog "sample") => decide
    (s.tx.closedBy = none ∧ s.tx.isMutable = true ∧ s.tx.options.isImmediate = false ∧ s.tx.pending.isEmpty = false ∧
      s.tx.home = 0 ∧ s.version = 1 ∧ Contents.clash? s.row (s.tx.pending.map Pending.toTableWrite) = none))
    (r.session? 2)).1 (by decide +kernel)
  obtain ⟨ho, hm, hd, hempty, hhome, hversion, hclash⟩ := of_decide_eq_true hqueueing
  have hp : s.tx.pending ≠ [] := List.isEmpty_eq_false_iff.1 hempty
  refine ⟨s, hs, hp, (commit_outcome overtaken 2 s hs ho hm hd hp).2.1 hclash ⟨.item, itemCells, hasked, ?_⟩⟩
  rw [hhome, hversion]
  exact hrenewed

end EntityStore
