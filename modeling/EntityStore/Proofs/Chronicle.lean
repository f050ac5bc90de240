import EntityStore.Proofs.Repositories
import EntityStore.Proofs.Writes
import Mathlib.Logic.Function.Basic
/-!
# The chronicle of a repository

A `Chronicle` is told of every action on a repository and keeps nothing of its storages: only which writes each
transaction had accepted, which of these left something, and which writes each commit published as which version.
`Chronicle.tells_along` says that this is enough to know every draft and every published row; it is the second account
of what a repository shows, against which the first one is held.
-/
namespace EntityStore

variable {X : Scalars} {κ : Type} [DecidableEq κ] {C : κ → EntityType X}

/-- What became visible with a version. -/
structure Publication (C : κ → EntityType X) where
  version : Nat
  tx : TxId
  writes : List (TableWrite C)

/-- The publications of a storage, the last one first. -/
abbrev Ledger (C : κ → EntityType X) : Type := List (Publication C)

/-- The row under a key by version `u`: what the last publication up to then that has written there left. -/
def Ledger.row : Ledger C → Nat → (k : κ) → Cells X → Option (C k).Entity
  | [], _, _, _ => none
  | p :: rest, u, k, c => if p.version ≤ u then (lastRow? p.writes k c).getD (row rest u k c) else row rest u k c

/-- What was written and published, without the storages. -/
structure Chronicle (C : κ → EntityType X) where
  /-- The writes of a transaction that were answered without an error. -/
  accepted : TxId → List (TableWrite C) := fun _ => []
  /-- Those of them that were queued or have left a draft. -/
  effective : TxId → List (TableWrite C) := fun _ => []
  /-- The publications in the storage in a place. -/
  ledger : Nat → Ledger C := fun _ => []
  /-- The publications that a snapshot has kept. -/
  saved : X.uuid → Ledger C := fun _ => []

/-- The write of a statement that is answered without an error. -/
def Session.accepts? (s : Session C) (op : TableOp C) : Option (TableWrite C) :=
  match (op.run s).1 with
  | .ok _ => op.write?
  | .error _ => none

/-- Whether a write goes to the queue or leaves a draft. -/
def Session.leaves (s : Session C) (w : TableWrite C) : Bool :=
  !s.tx.options.isImmediate || s.storage.lands s.tx.id s.version w.kind w.write

namespace Chronicle

def noteWrite (ch : Chronicle C) (id : TxId) (w : TableWrite C) (leaves : Bool) : Chronicle C :=
  { ch with
    accepted := Function.update ch.accepted id (ch.accepted id ++ [w])
    effective := Function.update ch.effective id (ch.effective id ++ if leaves then [w] else []) }

def noteStatement (ch : Chronicle C) (s : Session C) (op : TableOp C) : Chronicle C :=
  match s.accepts? op with
  | some w => ch.noteWrite s.tx.id w (s.leaves w)
  | none => ch

/-- A commit that takes a new version publishes what its transaction has written. -/
def noteCommit (ch : Chronicle C) (s : Session C) : Chronicle C :=
  if s.storage.version < s.commit.2.storage.version then
    { ch with
      ledger := Function.update ch.ledger s.tx.home
        (⟨s.commit.2.storage.version, s.tx.id, ch.effective s.tx.id⟩ :: ch.ledger s.tx.home) }
  else ch

/-- The chronicle after an action on the repository `r`. -/
def note (ch : Chronicle C) (r : Repository C) : Action C → Chronicle C
  | .statement id op =>
    match r.session? id with
    | some s => ch.noteStatement s op
    | none => ch
  | .commit id =>
    match r.session? id with
    | some s => ch.noteCommit s
    | none => ch
  | .makeSnapshot id => { ch with saved := Function.update ch.saved id (ch.ledger r.retired.length) }
  | .loadSnapshot id =>
    if r.snapshots.contains id then
      { ch with ledger := Function.update ch.ledger (r.retired.length + 1) (ch.saved id) }
    else ch
  | _ => ch

/-- The chronicle after some actions. -/
def along (ch : Chronicle C) (r : Repository C) : List (Action C) → Chronicle C
  | [] => ch
  | a :: rest => (ch.note r a).along (r.next a) rest

/-- The chronicle knows an open transaction: its queue, its drafts, and what it sees where it has written. -/
structure Knows (ch : Chronicle C) (s : Session C) : Prop where
  queued : s.tx.options.isImmediate = false →
    s.tx.pending.map Pending.toTableWrite = ch.effective s.tx.id ∧ ch.effective s.tx.id = ch.accepted s.tx.id
  drafts : s.tx.options.isImmediate = true → ∀ k c,
    s.storage.draft? s.tx.id k c = lastRow? (ch.effective s.tx.id) k c
  own : s.tx.options.isImmediate = true → ∀ k c row, lastRow? (ch.accepted s.tx.id) k c = some row →
    ∃ v, s.tx.snapshot = some v ∧ s.storage.read s.tx.id v k c = row
  effective : ∀ k c, lastRow? (ch.effective s.tx.id) k c = lastRow? (ch.accepted s.tx.id) k c ∨
    (lastRow? (ch.effective s.tx.id) k c = none ∧ lastRow? (ch.accepted s.tx.id) k c = some none)
  writable : ch.accepted s.tx.id ≠ [] → s.tx.isMutable = true

/-- The chronicle is true of a repository. -/
structure Tells (ch : Chronicle C) (r : Repository C) : Prop where
  ledger : ∀ home ≤ r.retired.length, ∀ u k c, (r.storage home).published u k c = (ch.ledger home).row u k c
  saved : ∀ sid st, r.snapshots.get? sid = some st → ∀ u k c, st.published u k c = (ch.saved sid).row u k c
  session : ∀ id s, r.session? id = some s → s.tx.closedBy = none → ch.Knows s
  fresh : ∀ id, r.lastTx < id → ch.accepted id = [] ∧ ch.effective id = []

theorem tells_empty : ({} : Chronicle C).Tells {} where
  ledger _ _ _ _ _ := rfl
  saved _ _ h := by cases h
  session _ _ h := by cases h
  fresh _ _ := ⟨rfl, rfl⟩

theorem Knows.following {ch ch' : Chronicle C} {t s s' : Session C} (h : ch.Knows t) (ht : t.Sound)
    (hid : s.tx.id ≠ t.tx.id) (hm : s.tx.home = t.tx.home → Storage.Moves s.tx.id t.storage s'.storage)
    (hhome : s'.tx.home = s.tx.home) (ha : ch'.accepted t.tx.id = ch.accepted t.tx.id)
    (he : ch'.effective t.tx.id = ch.effective t.tx.id) : ch'.Knows (t.following s') := by
  have hstorage : ∀ k c, (t.following s').storage.draft? t.tx.id k c = t.storage.draft? t.tx.id k c ∧
      ∀ v ≤ t.storage.version, (t.following s').storage.read t.tx.id v k c = t.storage.read t.tx.id v k c := by
    intro k c
    unfold Session.following
    split
    · rename_i heq
      have hm := hm (hhome ▸ heq)
      exact ⟨hm.draft?_eq ht.storage hid k c, fun v hv => hm.read_eq ht.storage hid hv k c⟩
    · exact ⟨rfl, fun _ _ => rfl⟩
  refine ⟨?_, fun hi k c => ?_, fun hi k c row hrow => ?_, ?_, ?_⟩
  · rw [Session.tx_following, ha, he]
    exact h.queued
  · rw [Session.tx_following] at hi ⊢
    rw [(hstorage k c).1, he]
    exact h.drafts hi k c
  · rw [Session.tx_following] at hi hrow ⊢
    rw [ha] at hrow
    obtain ⟨v, hv, hread⟩ := h.own hi k c row hrow
    exact ⟨v, hv, by rw [(hstorage k c).2 v (ht.snapshot v hv), hread]⟩
  · rw [Session.tx_following, ha, he]
    exact h.effective
  · rw [Session.tx_following, ha]
    exact h.writable

section PutSession

variable {ch ch' : Chronicle C} {r : Repository C} {id : TxId} {s s' : Session C}

theorem Tells.ledger_putSession (h : ch.Tells r) (hr : r.Sound) (hs : r.session? id = some s)
    (hhome : s'.tx.home = s.tx.home) (hledger : ∀ home, home ≠ s.tx.home → ch'.ledger home = ch.ledger home)
    (hpublished : ∀ u k c, s'.storage.published u k c = (ch'.ledger s.tx.home).row u k c) {home : Nat}
    (hle : home ≤ r.retired.length) (u : Nat) (k : κ) (c : Cells X) :
    ((r.putSession s').storage home).published u k c = (ch'.ledger home).row u k c := by
  rw [Repository.storage_putSession r (hhome ▸ (hr.session id s hs).2.2.1) hle]
  split
  · rename_i he
    rw [hpublished, ← he, hhome]
  · rename_i he
    rw [hledger home (fun heq => he (hhome.trans heq.symm))]
    exact h.ledger home hle u k c

theorem Tells.session_putSession (h : ch.Tells r) (hr : r.Sound) (hs : r.session? id = some s)
    (hadv : Session.Advances s s') {other : TxId} (hne : id ≠ other) (ha : ch'.accepted other = ch.accepted other)
    (he : ch'.effective other = ch.effective other) {t : Session C} (ht : (r.putSession s').session? other = some t)
    (ho : t.tx.closedBy = none) : ch'.Knows t := by
  obtain ⟨hsid, -, hshome, -⟩ := hr.session id s hs
  rw [Repository.session?_putSession_of_ne hr (hadv.home ▸ hshome) (hadv.id.trans hsid ▸ hne)] at ht
  obtain ⟨u, hu, rfl⟩ := Option.map_eq_some_iff.1 ht
  rw [Session.tx_following] at ho
  obtain ⟨huid, -, -, husound⟩ := hr.session other u hu
  refine (h.session other u hu ho).following (s := s) husound ?_ (fun heq => ?_) hadv.home ?_ ?_
  · rw [hsid, huid]
    exact hne
  · rw [Repository.storage_of_session? hu, ← heq, ← Repository.storage_of_session? hs]
    exact hadv.moves
  · rw [huid, ha]
  · rw [huid, he]

/-- **The chronicle stays true when it learns what a transaction has done.** -/
theorem Tells.putSession (h : ch.Tells r) (hr : r.Sound) (hs : r.session? id = some s) (hadv : Session.Advances s s')
    (hothers : ∀ other, other ≠ id → ch'.accepted other = ch.accepted other ∧ ch'.effective other = ch.effective other)
    (hledger : ∀ home, home ≠ s.tx.home → ch'.ledger home = ch.ledger home) (hsaved : ch'.saved = ch.saved)
    (hpublished : ∀ u k c, s'.storage.published u k c = (ch'.ledger s.tx.home).row u k c)
    (hknows : s'.tx.closedBy = none → ch'.Knows s') : ch'.Tells (r.putSession s') := by
  obtain ⟨-, hsle, -, -⟩ := hr.session id s hs
  refine ⟨fun home hle => ?_, ?_, fun other t ht hopen => ?_, fun other hlt => ?_⟩
  · rw [Repository.retired_length_putSession] at hle
    exact h.ledger_putSession hr hs hadv.home hledger hpublished hle
  · rw [Repository.snapshots_putSession, hsaved]
    exact h.saved
  · by_cases hne : id = other
    · subst hne
      rw [Repository.session?_putSession_of_advances hr hs hadv] at ht
      cases ht
      exact hknows hopen
    · obtain ⟨ha, he⟩ := hothers other (Ne.symm hne)
      exact h.session_putSession hr hs hadv hne ha he ht hopen
  · rw [Repository.lastTx_putSession] at hlt
    obtain ⟨ha, he⟩ := hothers other (Nat.ne_of_gt (Nat.lt_of_le_of_lt hsle hlt))
    rw [ha, he]
    exact h.fresh other hlt

end PutSession

/-! ## What the chronicle learns from the actions of one transaction -/

theorem Knows.reads {ch : Chronicle C} {s s' : Session C} (h : ch.Knows s) (hr : Session.Reads s s') : ch.Knows s' where
  queued := by
    rw [hr.options, hr.pending, hr.id]
    exact h.queued
  drafts := by
    rw [hr.options, hr.storage, hr.id]
    exact h.drafts
  own hi k c row hrow := by
    rw [hr.id] at hrow
    obtain ⟨v, hv, hread⟩ := h.own (hr.options ▸ hi) k c row hrow
    exact ⟨v, hr.advances.snapshot v hv, by rw [hr.storage, hr.id, hread]⟩
  effective := by
    rw [hr.id]
    exact h.effective
  writable := by
    rw [hr.id, Session.isMutable_congr hr.options]
    exact h.writable

theorem accepted_noteWrite (ch : Chronicle C) (id : TxId) (w : TableWrite C) (leaves : Bool) (k : κ) (c : Cells X) :
    lastRow? ((ch.noteWrite id w leaves).accepted id) k c = (w.row? k c).or (lastRow? (ch.accepted id) k c) := by
  simp only [noteWrite, Function.update_self]
  exact lastRow?_concat ..

theorem effective_noteWrite (ch : Chronicle C) (id : TxId) (w : TableWrite C) (leaves : Bool) (k : κ) (c : Cells X) :
    lastRow? ((ch.noteWrite id w leaves).effective id) k c =
      if leaves then (w.row? k c).or (lastRow? (ch.effective id) k c) else lastRow? (ch.effective id) k c := by
  simp only [noteWrite, Function.update_self]
  cases leaves with
  | true => exact lastRow?_concat ..
  | false => simp

theorem Knows.queues {ch : Chronicle C} {s s' : Session C} {w : TableWrite C} (h : ch.Knows s)
    (hm : s.tx.isMutable = true) (hd : s.tx.options.isImmediate = false) (hq : Session.Queues s w s') :
    (ch.noteWrite s.tx.id w true).Knows s' := by
  obtain ⟨hpending, hsame⟩ := h.queued hd
  have hd' : s'.tx.options.isImmediate = false := hq.options ▸ hd
  refine ⟨fun _ => ?_, fun hi => ?_, fun hi => ?_, fun k c => ?_, fun _ => Session.isMutable_congr hq.options ▸ hm⟩
  · obtain ⟨action, hp⟩ := hq.pending
    rw [hq.id, hp, List.map_append, hpending]
    simp only [noteWrite, Function.update_self, hsame]
    exact ⟨rfl, rfl⟩
  · rw [hd'] at hi
    cases hi
  · rw [hd'] at hi
    cases hi
  · rw [hq.id, accepted_noteWrite, effective_noteWrite, hsame]
    exact .inl rfl

/-- A write that the storage accepts is the last one accepted, and leaves a draft or a row that nobody sees. -/
theorem Knows.applies {ch : Chronicle C} {s s' : Session C} {w : TableWrite C} (h : ch.Knows s) (hs : s.Sound)
    (hm : s.tx.isMutable = true) (hi : s.tx.options.isImmediate = true) (ha : Session.Applies s w s')
    (hok : (s.storage.write s.tx.id s.version w.kind w.write).1 = .ok ()) :
    (ch.noteWrite s.tx.id w (s.leaves w)).Knows s' := by
  have hleaves : s.leaves w = s.storage.lands s.tx.id s.version w.kind w.write := by
    unfold Session.leaves
    rw [hi]
    rfl
  have hdraft : ∀ k c, s'.storage.draft? s.tx.id k c =
      if s.leaves w then (w.row? k c).or (lastRow? (ch.effective s.tx.id) k c)
      else lastRow? (ch.effective s.tx.id) k c := by
    intro k c
    rw [ha.storage, ← h.drafts hi, hleaves]
    obtain ⟨j, w⟩ := w
    dsimp only
    by_cases hk : j = k
    · subst hk
      rw [Storage.draft?_write_self hs.storage, TableWrite.row?_self]
      cases s.storage.lands s.tx.id s.version j w <;> by_cases hc : w.cells = c <;> simp [hc]
    · rw [Storage.draft?_write_of_ne s.storage s.tx.id s.tx.id s.version hk, TableWrite.row?_of_ne hk]
      simp
  refine ⟨fun hd => ?_, fun _ k c => ?_, fun _ k c row hrow => ⟨s.version, ha.snapshot, ?_⟩, fun k c => ?_,
    fun _ => Session.isMutable_congr ha.options ▸ hm⟩
  · rw [ha.options, hi] at hd
    cases hd
  · rw [ha.id, hdraft, effective_noteWrite]
  · rw [ha.id, accepted_noteWrite] at hrow
    rw [ha.id, ha.storage, Storage.read_write hs.storage hok]
    cases hw : w.row? k c with
    | some row' =>
      rw [hw] at hrow
      cases hrow
      rfl
    | none =>
      rw [hw] at hrow
      obtain ⟨v, hv, hread⟩ := h.own hi k c row hrow
      rw [Session.version_of_snapshot hv]
      exact hread
  · rw [ha.id, accepted_noteWrite, effective_noteWrite]
    cases hw : w.row? k c with
    | none => simpa using h.effective k c
    | some row =>
      cases hl : s.leaves w with
      | true => exact .inl rfl
      -- only the deletion of a row that has no line leaves nothing behind
      | false =>
        right
        simp only [Bool.false_eq_true, if_false, Option.some_or]
        obtain ⟨j, w⟩ := w
        rw [hleaves] at hl
        by_cases hk : j = k
        · subst hk
          rw [TableWrite.row?_self] at hw
          split at hw
          · rename_i hc
            subst hc
            obtain ⟨hdelete, hline⟩ := Storage.eq_delete_of_lands_eq_false hok hl
            rw [← h.drafts hi, Storage.draft?_of_hasLine_eq_false hline, ← hw, hdelete]
            exact ⟨rfl, rfl⟩
          · cases hw
        · rw [TableWrite.row?_of_ne hk] at hw
          cases hw

theorem Knows.refused {ch : Chronicle C} {s s' : Session C} {w : TableWrite C} (h : ch.Knows s) (hs : s.Sound)
    (ha : Session.Applies s w s') (hno : (s.storage.write s.tx.id s.version w.kind w.write).1 ≠ .ok ()) :
    ch.Knows s' := by
  have hdraft : ∀ k c, s'.storage.draft? s.tx.id k c = s.storage.draft? s.tx.id k c := by
    intro k c
    rw [ha.storage]
    exact Storage.draft?_write_of_refused hs.storage hno ..
  refine ⟨fun hd => ?_, fun hi k c => ?_, fun hi k c row hrow => ?_, ?_, ?_⟩
  · rw [ha.pending, ha.id]
    exact h.queued (ha.options ▸ hd)
  · rw [ha.id, hdraft]
    exact h.drafts (ha.options ▸ hi) k c
  · rw [ha.id] at hrow
    obtain ⟨v, hv, hread⟩ := h.own (ha.options ▸ hi) k c row hrow
    refine ⟨s.version, ha.snapshot, ?_⟩
    rw [ha.id, Session.version_of_snapshot hv, Storage.read_eq, hdraft, ha.storage, Storage.published_write hs.storage,
      ← Storage.read_eq, hread]
  · rw [ha.id]
    exact h.effective
  · rw [ha.id, Session.isMutable_congr ha.options]
    exact h.writable

/-- **The chronicle learns from a statement what it does.** -/
theorem Knows.statement {ch : Chronicle C} {s : Session C} (h : ch.Knows s) (hs : s.Sound) (op : TableOp C) :
    (ch.noteStatement s op).Knows (op.run s).2 := by
  unfold noteStatement Session.accepts?
  cases op.effect s with
  | reads hr hw =>
    have hnone : (match (op.run s).1 with | .ok _ => op.write? | .error _ => none) = none := by
      rcases hw with hw | ⟨e, he⟩
      · split <;> simp [hw]
      · rw [he]
    rw [hnone]
    exact h.reads hr
  | queues w hw ho hm hd hq done =>
    obtain ⟨a, ha⟩ := done
    rw [ha, hw]
    have hleaves : s.leaves w = true := by simp [Session.leaves, hd]
    dsimp only
    rw [hleaves]
    exact h.queues hm hd hq
  | applies w hw ho hm hi happ done =>
    cases hans : (op.run s).1 with
    | ok a =>
      rw [hans] at done
      dsimp only
      rw [hw]
      refine h.applies hs hm hi happ ?_
      cases hr : (s.storage.write s.tx.id s.version w.kind w.write).1 with
      | ok u => rfl
      | error e =>
        rw [hr] at done
        cases done
    | error e =>
      rw [hans] at done
      refine h.refused hs happ fun hok => ?_
      rw [hok] at done
      cases done

theorem published_statement {s : Session C} (hs : s.Sound) (op : TableOp C) (u : Nat) (k : κ) (c : Cells X) :
    (op.run s).2.storage.published u k c = s.storage.published u k c := by
  cases op.effect s with
  | reads hr _ => rw [hr.storage]
  | queues w _ _ _ _ hq _ => rw [hq.storage]
  | applies w _ _ _ _ ha _ => rw [ha.storage, Storage.published_write hs.storage]

/-- What the replay of its queue shows to an open transaction: the last of its writes that was effective. -/
theorem Knows.read_replayed {ch : Chronicle C} {s : Session C} (h : ch.Knows s) (hs : s.Sound)
    (hok : s.replayed.1 = .ok ()) (u : Nat) (k : κ) (c : Cells X) :
    s.replayed.2.read s.tx.id u k c = (lastRow? (ch.effective s.tx.id) k c).getD (s.storage.published u k c) := by
  refine (Storage.read_replay s.tx.id s.version _ hs.storage hok u k c).trans ?_
  rw [Storage.read_eq]
  cases hi : s.tx.options.isImmediate with
  | true =>
    rw [hs.queued hi, h.drafts hi]
    rfl
  | false =>
    rw [(h.queued hi).1, hs.storage.draft?_of_untouched (hs.untouched_of_delayed hi)]
    rfl

/-- **The chronicle learns from a commit what it publishes.** -/
theorem published_commit {ch : Chronicle C} {s : Session C} (h : s.tx.closedBy = none → ch.Knows s) (hs : s.Sound)
    (hledger : ∀ u k c, s.storage.published u k c = (ch.ledger s.tx.home).row u k c) (u : Nat) (k : κ) (c : Cells X) :
    s.commit.2.storage.published u k c = ((ch.noteCommit s).ledger s.tx.home).row u k c := by
  have hsame : s.commit.2.storage.version = s.storage.version →
      (ch.noteCommit s).ledger s.tx.home = ch.ledger s.tx.home := by
    intro hv
    unfold noteCommit
    rw [if_neg (by omega)]
  have hversion : s.replayed.2.version = s.storage.version := Storage.version_replay ..
  have hpub : s.replayed.2.published u k c = s.storage.published u k c :=
    Storage.published_replay _ _ _ _ _ _ hs.storage
  have hsound : s.replayed.2.Sound := s.moves_replayed.sound hs.storage
  cases s.commit_effect with
  | refused e _ same _ =>
    rw [hsame (by rw [same]), same]
    exact hledger u k c
  | idle _ _ _ hst =>
    rw [hsame (by rw [hst]), hst]
    exact hledger u k c
  | failed e _ hst _ =>
    rw [hsame (by rw [hst]; exact hversion), hst, Storage.published_rollback hsound, hpub]
    exact hledger u k c
  | unwritten _ _ hst _ _ =>
    rw [hsame (by rw [hst]; exact hversion), hst, hpub]
    exact hledger u k c
  | published _ ho _ _ hst hok _ _ =>
    have hnew : s.commit.2.storage.version = s.storage.version + 1 := by
      rw [hst]
      exact congrArg (· + 1) hversion
    unfold noteCommit
    rw [if_pos (by omega)]
    simp only [Function.update_self, Ledger.row, hnew]
    rw [hst, Storage.published_publish hsound, hversion, (h ho).read_replayed hs hok, hpub, ← hledger]

/-! ## The chronicle is true -/

theorem tells_start {ch : Chronicle C} {r : Repository C} (h : ch.Tells r) (hr : r.Sound) (options : TxOptions) :
    ch.Tells (r.start options).2 where
  ledger := h.ledger
  saved := h.saved
  session id s hs ho := by
    rw [Repository.session?_start] at hs
    split at hs
    · cases hs
      obtain ⟨ha, he⟩ := h.fresh (r.begun options).tx.id (Nat.lt_succ_self _)
      refine ⟨fun _ => ?_, fun _ k c => ?_, fun _ k c row hrow => ?_, fun k c => ?_, fun hne => absurd ha hne⟩
      · rw [ha, he]
        exact ⟨rfl, rfl⟩
      · rw [he]
        exact Storage.Sound.draft?_of_untouched hr.current (hr.untouched_begun options) k c
      · rw [ha] at hrow
        cases hrow
      · rw [ha, he]
        exact .inl rfl
    · exact h.session id s hs ho
  fresh id hlt := h.fresh id (Nat.lt_of_succ_lt hlt)

theorem tells_release {ch : Chronicle C} {r : Repository C} (h : ch.Tells r) (hr : r.Sound) {id : TxId} {s : Session C}
    (hs : r.session? id = some s) : ch.Tells ((r.putSession s.release).forget id) where
  ledger home hle := by
    refine h.ledger_putSession hr hs s.advances_release.home (fun _ _ => rfl) (fun u k c => ?_) ?_
    · rw [← h.ledger _ (hr.session id s hs).2.2.1, ← Repository.storage_of_session? hs]
      unfold Session.release
      split
      · exact Storage.published_rollback (hr.session id s hs).2.2.2.storage ..
      · rfl
    · exact (Repository.retired_length_putSession r s.release) ▸ hle
  saved := (Repository.snapshots_putSession r s.release).symm ▸ h.saved
  session other t ht ho := by
    rw [Repository.session?_forget] at ht
    split at ht
    · cases ht
    · rename_i hne
      exact h.session_putSession hr hs s.advances_release hne rfl rfl ht ho
  fresh other hlt := h.fresh other ((Repository.lastTx_putSession r s.release) ▸ hlt)

theorem tells_reads {ch : Chronicle C} {r : Repository C} (h : ch.Tells r) (hr : r.Sound) (id : TxId) {α : Type}
    (f : Session C → Except Error α × Session C) (hf : ∀ s, Session.Reads s (f s).2) :
    ch.Tells (r.onSession id f).2 := by
  cases hs : r.session? id with
  | none =>
    rw [Repository.snd_onSession_of_none hs]
    exact h
  | some s =>
    rw [Repository.onSession_of_some hs]
    refine h.putSession hr hs (hf s).advances (fun _ _ => ⟨rfl, rfl⟩) (fun _ _ => rfl) rfl (fun u k c => ?_)
      fun ho => ?_
    · rw [(hf s).storage, Repository.storage_of_session? hs]
      exact h.ledger _ (hr.session id s hs).2.2.1 u k c
    · exact (h.session id s hs ((hf s).closedBy ▸ ho)).reads (hf s)

theorem tells_statement {ch : Chronicle C} {r : Repository C} (h : ch.Tells r) (hr : r.Sound) (id : TxId)
    (op : TableOp C) : (ch.note r (.statement id op)).Tells (r.next (.statement id op)) := by
  show (match r.session? id with | some s => ch.noteStatement s op | none => ch).Tells (r.onSession id op.run).2
  cases hs : r.session? id with
  | none =>
    rw [Repository.snd_onSession_of_none hs]
    exact h
  | some s =>
    rw [Repository.onSession_of_some hs]
    obtain ⟨hsid, -, hshome, hssound⟩ := hr.session id s hs
    have hnote : (∀ other, other ≠ id → (ch.noteStatement s op).accepted other = ch.accepted other ∧
        (ch.noteStatement s op).effective other = ch.effective other) ∧
        (ch.noteStatement s op).ledger = ch.ledger ∧ (ch.noteStatement s op).saved = ch.saved := by
      unfold noteStatement
      split
      · refine ⟨fun other hne => ?_, rfl, rfl⟩
        simp [noteWrite, hsid, hne]
      · exact ⟨fun _ _ => ⟨rfl, rfl⟩, rfl, rfl⟩
    refine h.putSession hr hs (s.advances_statement op) hnote.1 (fun _ _ => by rw [hnote.2.1]) hnote.2.2
      (fun u k c => ?_) fun ho => ?_
    · rw [published_statement hssound, hnote.2.1, Repository.storage_of_session? hs]
      exact h.ledger _ hshome u k c
    · refine (h.session id s hs ?_).statement hssound op
      cases hc : s.tx.closedBy with
      | none => rfl
      | some closing =>
        rw [(s.advances_statement op).closed (by simp [hc]), hc] at ho
        cases ho

theorem tells_commit {ch : Chronicle C} {r : Repository C} (h : ch.Tells r) (hr : r.Sound) (id : TxId) :
    (ch.note r (.commit id)).Tells (r.next (.commit id)) := by
  show (match r.session? id with | some s => ch.noteCommit s | none => ch).Tells (r.onSession id Session.commit).2
  cases hs : r.session? id with
  | none =>
    rw [Repository.snd_onSession_of_none hs]
    exact h
  | some s =>
    rw [Repository.onSession_of_some hs]
    obtain ⟨hsid, -, hshome, hssound⟩ := hr.session id s hs
    have hnote : (ch.noteCommit s).accepted = ch.accepted ∧ (ch.noteCommit s).effective = ch.effective ∧
        (ch.noteCommit s).saved = ch.saved ∧
          ∀ home, home ≠ s.tx.home → (ch.noteCommit s).ledger home = ch.ledger home := by
      unfold noteCommit
      split
      · exact ⟨rfl, rfl, rfl, fun home hne => Function.update_of_ne hne ..⟩
      · exact ⟨rfl, rfl, rfl, fun _ _ => rfl⟩
    obtain ⟨ha, he, hsaved, hledger⟩ := hnote
    refine h.putSession hr hs s.advances_commit (fun other _ => by rw [ha, he]; exact ⟨rfl, rfl⟩) hledger hsaved
      (published_commit (h.session id s hs) hssound fun u k c => ?_) fun ho => ?_
    · rw [Repository.storage_of_session? hs]
      exact h.ledger _ hshome u k c
    -- a commit that leaves the transaction open was refused
    · have hsame := Session.commit_of_isOpen ho
      have hversion : ch.noteCommit s = ch := by
        unfold noteCommit
        rw [hsame, if_neg (Nat.lt_irrefl _)]
      show (ch.noteCommit s).Knows s.commit.2
      rw [hversion, hsame]
      exact h.session id s hs (hsame ▸ ho)

theorem tells_rollback {ch : Chronicle C} {r : Repository C} (h : ch.Tells r) (hr : r.Sound) (id : TxId) :
    ch.Tells (r.rollback id).2 := by
  show ch.Tells (r.onSession id Session.rollback).2
  cases hs : r.session? id with
  | none =>
    rw [Repository.snd_onSession_of_none hs]
    exact h
  | some s =>
    rw [Repository.onSession_of_some hs]
    obtain ⟨hsid, -, hshome, hssound⟩ := hr.session id s hs
    have hpub : ∀ u k c, s.rollback.2.storage.published u k c = s.storage.published u k c := by
      intro u k c
      cases s.rollback_spec with
      | refused _ _ same _ => rw [same]
      | idle _ _ _ hst _ _ => rw [hst]
      | ends _ _ _ hst _ _ => exact hst ▸ Storage.published_rollback hssound.storage ..
    refine h.putSession hr hs s.advances_rollback (fun _ _ => ⟨rfl, rfl⟩) (fun _ _ => rfl) rfl (fun u k c => ?_)
      fun ho => ?_
    · rw [hpub, Repository.storage_of_session? hs]
      exact h.ledger _ hshome u k c
    · have hsame := Session.rollback_of_isOpen ho
      rw [hsame] at ho ⊢
      exact h.session id s hs ho

theorem tells_makeSnapshot {ch : Chronicle C} {r : Repository C} (h : ch.Tells r) (new : X.uuid) :
    (ch.note r (.makeSnapshot new)).Tells (r.makeSnapshot new) where
  ledger := h.ledger
  saved sid st hs u k c := by
    have hs : (r.snapshots.insert new r.current.settled).get? sid = some st := hs
    show st.published u k c = (Function.update ch.saved new (ch.ledger r.retired.length) sid).row u k c
    rw [Dict.get?_insert] at hs
    split at hs
    · rename_i he
      cases hs
      rw [← he, Function.update_self, Storage.published_settled, ← Repository.storage_length r]
      exact h.ledger _ (Nat.le_refl _) u k c
    · rename_i hne
      rw [Function.update_of_ne (Ne.symm hne)]
      exact h.saved sid st hs u k c
  session id s hs ho := by
    obtain ⟨hq, hd, hown, he, hw⟩ := h.session id s hs ho
    exact ⟨hq, hd, hown, he, hw⟩
  fresh := h.fresh

theorem tells_loadSnapshot {ch : Chronicle C} {r : Repository C} (h : ch.Tells r) (hr : r.Sound) (sid : X.uuid) :
    (ch.note r (.loadSnapshot sid)).Tells (r.next (.loadSnapshot sid)) := by
  show (if r.snapshots.contains sid then
      { ch with ledger := Function.update ch.ledger (r.retired.length + 1) (ch.saved sid) } else ch).Tells
    (r.orSame (r.loadSnapshot sid)).2
  unfold Repository.loadSnapshot Dict.contains
  cases hs : r.snapshots.get? sid with
  | none => exact h
  | some st =>
    have hlen : (r.load st).retired.length = r.retired.length + 1 := by simp [Repository.load]
    refine ⟨fun home hle u k c => ?_, h.saved, fun id s hs ho => ?_, h.fresh⟩
    · have hle : home ≤ r.retired.length + 1 := hlen ▸ hle
      show ((r.load st).storage home).published u k c =
        (Function.update ch.ledger (r.retired.length + 1) (ch.saved sid) home).row u k c
      rw [Repository.storage_load r st hle]
      split
      · rename_i he
        rw [he, Function.update_self, Storage.published_settled]
        exact h.saved sid st hs u k c
      · rename_i hne
        rw [Function.update_of_ne hne]
        exact h.ledger home (by omega) u k c
    · have hs : (r.load st).session? id = some s := hs
      rw [Repository.session?_load hr] at hs
      obtain ⟨hq, hd, hown, he, hw⟩ := h.session id s hs ho
      exact ⟨hq, hd, hown, he, hw⟩

theorem tells_dropSnapshot {ch : Chronicle C} {r : Repository C} (h : ch.Tells r) (sid : X.uuid) :
    ch.Tells (r.next (.dropSnapshot sid)) := by
  show ch.Tells (r.orSame (r.dropSnapshot sid)).2
  unfold Repository.dropSnapshot
  split
  · refine ⟨h.ledger, fun other st hs => ?_, h.session, h.fresh⟩
    have hs : (r.snapshots.erase sid).get? other = some st := hs
    rw [Dict.get?_erase] at hs
    split at hs
    · cases hs
    · exact h.saved other st hs
  · exact h

/-- **The chronicle stays true with every action.** -/
theorem tells_note {ch : Chronicle C} {r : Repository C} (h : ch.Tells r) (hr : r.Sound) (a : Action C) :
    (ch.note r a).Tells (r.next a) := by
  cases a with
  | start options => exact tells_start h hr options
  | openTable id k => exact tells_reads h hr id _ fun s => Session.Reads.openTable s k
  | statement id op => exact tells_statement h hr id op
  | record id f =>
    exact tells_reads h hr id (fun s => (.ok (), { s with tx := { s.tx with log := f s.tx.log } })) fun s =>
      .record s f
  | commit id => exact tells_commit h hr id
  | rollback id => exact tells_rollback h hr id
  | release id =>
    show ch.Tells (r.release id)
    unfold Repository.release
    cases hs : r.session? id with
    | none => exact h
    | some s => exact tells_release h hr hs
  | makeSnapshot new => exact tells_makeSnapshot h new
  | loadSnapshot sid => exact tells_loadSnapshot h hr sid
  | dropSnapshot sid => exact tells_dropSnapshot h sid

/-- **Whatever was done, the chronicle is true of what it led to.** -/
theorem tells_along {ch : Chronicle C} {r : Repository C} (h : ch.Tells r) (hr : r.Sound) (as : List (Action C)) :
    (ch.along r as).Tells (r.after as) := by
  induction as generalizing ch r with
  | nil => exact h
  | cons a rest ih => exact ih (tells_note h hr a) (Repository.sound_next hr a)

theorem tells_after (as : List (Action C)) : (({} : Chronicle C).along {} as).Tells (({} : Repository C).after as) :=
  tells_along tells_empty Repository.sound_empty as

end Chronicle

end EntityStore
