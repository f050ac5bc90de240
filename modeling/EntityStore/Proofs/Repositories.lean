import EntityStore.Proofs.Sessions
import EntityStore.Store.Repository
/-!
# Everything that can be done with a repository

An `Action` is one call on a repository or on one of its transactions; `Repository.perform` carries it out, and
`Repository.after` carries out any number, so that the states a repository can reach are those after some list of
actions.  `Repository.effect` lists what an action can come to: nothing, an advance of the transaction that acts, its
start or its end, or a change of the snapshots and of the current storage.  `Repository.Sound` is the invariant.
-/
namespace EntityStore

variable {X : Scalars} {κ : Type} [DecidableEq κ] {C : κ → EntityType X}

/-! ## Sessions of a repository -/

namespace Repository

omit [DecidableEq κ] in
@[simp] theorem retired_length_setStorage (r : Repository C) (home : Nat) (st : Storage C) :
    (r.setStorage home st).retired.length = r.retired.length := by
  unfold setStorage
  split <;> simp

omit [DecidableEq κ] in
@[simp] theorem transactions_setStorage (r : Repository C) (home : Nat) (st : Storage C) :
    (r.setStorage home st).transactions = r.transactions := by unfold setStorage; split <;> rfl

omit [DecidableEq κ] in
@[simp] theorem snapshots_setStorage (r : Repository C) (home : Nat) (st : Storage C) :
    (r.setStorage home st).snapshots = r.snapshots := by unfold setStorage; split <;> rfl

omit [DecidableEq κ] in
@[simp] theorem lastTx_setStorage (r : Repository C) (home : Nat) (st : Storage C) :
    (r.setStorage home st).lastTx = r.lastTx := by unfold setStorage; split <;> rfl

omit [DecidableEq κ] in
theorem storage_setStorage (r : Repository C) {home place : Nat} (hh : home ≤ r.retired.length)
    (hp : place ≤ r.retired.length) (st : Storage C) :
    (r.setStorage home st).storage place = if home = place then st else r.storage place := by
  unfold setStorage storage
  by_cases hl : home < r.retired.length
  · rw [if_pos hl]
    by_cases he : home = place
    · subst he
      simp [hl]
    · simp [he]
  · rw [if_neg hl]
    have hl : home = r.retired.length := Nat.le_antisymm hh (Nat.le_of_not_lt hl)
    by_cases he : home = place
    · subst he
      simp [hl]
    · have hp : place < r.retired.length := Nat.lt_of_le_of_ne hp (hl ▸ Ne.symm he)
      simp [he, hp]

omit [DecidableEq κ] in
@[simp] theorem retired_length_putSession (r : Repository C) (s : Session C) :
    (r.putSession s).retired.length = r.retired.length := retired_length_setStorage ..

omit [DecidableEq κ] in
@[simp] theorem snapshots_putSession (r : Repository C) (s : Session C) : (r.putSession s).snapshots = r.snapshots :=
  snapshots_setStorage ..

omit [DecidableEq κ] in
@[simp] theorem lastTx_putSession (r : Repository C) (s : Session C) : (r.putSession s).lastTx = r.lastTx :=
  lastTx_setStorage ..

omit [DecidableEq κ] in
theorem transaction?_putSession (r : Repository C) (s : Session C) (id : TxId) :
    (r.putSession s).transaction? id = if s.tx.id = id then some s.tx else r.transaction? id := by
  unfold transaction? putSession
  rw [transactions_setStorage]
  exact Dict.get?_insert ..

omit [DecidableEq κ] in
theorem storage_putSession (r : Repository C) {s : Session C} {place : Nat} (hh : s.tx.home ≤ r.retired.length)
    (hp : place ≤ r.retired.length) :
    (r.putSession s).storage place = if s.tx.home = place then s.storage else r.storage place := by
  exact storage_setStorage { r with transactions := r.transactions.insert s.tx.id s.tx } hh hp s.storage

omit [DecidableEq κ] in
theorem session?_eq_some_iff (r : Repository C) (id : TxId) (s : Session C) :
    r.session? id = some s ↔ r.transaction? id = some s.tx ∧ s.storage = r.storage s.tx.home := by
  unfold session?
  rw [Option.map_eq_some_iff]
  constructor
  · rintro ⟨tx, ht, rfl⟩
    exact ⟨ht, rfl⟩
  · rintro ⟨ht, hs⟩
    exact ⟨s.tx, ht, by rw [← hs]⟩

omit [DecidableEq κ] in
theorem setStorage_storage (r : Repository C) (home : Nat) : r.setStorage home (r.storage home) = r := by
  unfold setStorage storage
  by_cases hl : home < r.retired.length
  · simp [hl]
  · simp [hl]

omit [DecidableEq κ] in
theorem putSession_of_storage {r : Repository C} {s : Session C} (h : s.storage = r.storage s.tx.home) :
    r.putSession s = { r with transactions := r.transactions.insert s.tx.id s.tx } := by
  unfold putSession
  rw [h]
  exact setStorage_storage { r with transactions := r.transactions.insert s.tx.id s.tx } s.tx.home

omit [DecidableEq κ] in
theorem putSession_of_session? {r : Repository C} {id : TxId} {s : Session C} (hs : r.session? id = some s)
    (hid : s.tx.id = id) : r.putSession s = r := by
  obtain ⟨htx, hst⟩ := (session?_eq_some_iff r id s).1 hs
  rw [putSession_of_storage hst, Dict.insert_of_get? (hid ▸ htx : r.transactions.get? s.tx.id = some s.tx)]

end Repository

/-! ## Actions -/

/-- A call on a repository or on one of its transactions. -/
inductive Action (C : κ → EntityType X) where
  | start (options : TxOptions)
  /-- Opens a table of a transaction without a statement. -/
  | openTable (id : TxId) (k : κ)
  | statement (id : TxId) (op : TableOp C)
  /-- Changes the log of a transaction. -/
  | record (id : TxId) (f : TxLog → TxLog)
  | commit (id : TxId)
  | rollback (id : TxId)
  /-- Lets go of a transaction. -/
  | release (id : TxId)
  /-- Saves the published state under the identifier that is drawn for it. -/
  | makeSnapshot (id : X.uuid)
  | loadSnapshot (id : X.uuid)
  | dropSnapshot (id : X.uuid)

namespace Action

/-- The transaction that acts, if one does. -/
def actor? : Action C → Option TxId
  | .openTable id _ | .statement id _ | .record id _ | .commit id | .rollback id | .release id => some id
  | .start _ | .makeSnapshot _ | .loadSnapshot _ | .dropSnapshot _ => none

/-- What an action answers. -/
def Answer : Action C → Type
  | .start _ => TxId
  | .statement _ op => op.Answer
  | .makeSnapshot _ => X.uuid
  | _ => Unit

end Action

namespace Repository

/-- The changed repository, or the same one after a refusal. -/
def orSame (r : Repository C) : Except StoreError (Repository C) → Except Error Unit × Repository C
  | .error e => (.error e.toError, r)
  | .ok r => (.ok (), r)

/-- Carries out an action. -/
def perform (r : Repository C) (a : Action C) : Except Error a.Answer × Repository C :=
  match a with
  | .start options => (.ok (r.start options).1, (r.start options).2)
  | .openTable id k => r.onSession id (fun s => (.ok (), s.openTable k))
  | .statement id op => r.onSession id op.run
  | .record id f => (.ok (), r.record id f)
  | .commit id => r.commit id
  | .rollback id => r.rollback id
  | .release id => (.ok (), r.release id)
  | .makeSnapshot id => (.ok id, r.makeSnapshot id)
  | .loadSnapshot id => r.orSame (r.loadSnapshot id)
  | .dropSnapshot id => r.orSame (r.dropSnapshot id)

/-- The state after an action. -/
def next (r : Repository C) (a : Action C) : Repository C := (r.perform a).2

/-- The state after some actions. -/
def after (r : Repository C) : List (Action C) → Repository C
  | [] => r
  | a :: rest => (r.next a).after rest

theorem after_append (r : Repository C) (as bs : List (Action C)) : r.after (as ++ bs) = (r.after as).after bs := by
  induction as generalizing r with
  | nil => rfl
  | cons a rest ih => exact ih _

theorem after_concat (r : Repository C) (as : List (Action C)) (a : Action C) :
    r.after (as ++ [a]) = (r.after as).next a := by
  rw [after_append]
  rfl

/-- The repository without a transaction. -/
def forget (r : Repository C) (id : TxId) : Repository C := { r with transactions := r.transactions.erase id }

/-- The repository with a copy of a saved storage in use. -/
def load (r : Repository C) (st : Storage C) : Repository C :=
  { r with retired := r.retired ++ [r.current], current := st.settled }

/-- What an action made of a repository. -/
inductive Effect (r : Repository C) : Action C → Repository C → Prop
  | none (a : Action C) : Effect r a r
  | started (options : TxOptions) : Effect r (.start options) (r.start options).2
  | advanced {a : Action C} (id : TxId) (s s' : Session C) (ha : a.actor? = some id) (hs : r.session? id = some s)
      (h : Session.Advances s s') : Effect r a (r.putSession s')
  | released (id : TxId) (s : Session C) (hs : r.session? id = some s) :
      Effect r (.release id) ((r.putSession s.release).forget id)
  | saved (id : X.uuid) : Effect r (.makeSnapshot id) (r.makeSnapshot id)
  | loaded (id : X.uuid) (st : Storage C) (hs : r.snapshots.get? id = some st) :
      Effect r (.loadSnapshot id) (r.load st)
  | dropped (id : X.uuid) : Effect r (.dropSnapshot id) { r with snapshots := r.snapshots.erase id }

omit [DecidableEq κ] in
theorem snd_onSession_of_none {α : Type} {r : Repository C} {id : TxId} (hs : r.session? id = none)
    (f : Session C → Except Error α × Session C) : (r.onSession id f).2 = r := by
  unfold onSession
  rw [hs]

omit [DecidableEq κ] in
theorem onSession_of_some {α : Type} {r : Repository C} {id : TxId} {s : Session C} (hs : r.session? id = some s)
    (f : Session C → Except Error α × Session C) : r.onSession id f = ((f s).1, r.putSession (f s).2) := by
  unfold onSession
  rw [hs]

theorem effect_onSession {α : Type} (r : Repository C) {a : Action C} {id : TxId} (ha : a.actor? = some id)
    (f : Session C → Except Error α × Session C) (hf : ∀ s, Session.Advances s (f s).2) :
    Effect r a (r.onSession id f).2 := by
  unfold onSession
  cases hs : r.session? id with
  | none => exact .none a
  | some s => exact .advanced id s _ ha hs (hf s)

/-- **What an action can come to.** -/
theorem effect (r : Repository C) (a : Action C) : Effect r a (r.next a) := by
  cases a with
  | start options => exact .started options
  | openTable id k => exact effect_onSession r rfl _ fun s => (Session.Reads.openTable s k).advances
  | statement id op => exact effect_onSession r rfl _ fun s => s.advances_statement op
  | record id f =>
    exact effect_onSession r rfl (fun s => (.ok (), { s with tx := { s.tx with log := f s.tx.log } })) fun s =>
      (Session.Reads.record s f).advances
  | commit id => exact effect_onSession r rfl _ fun s => s.advances_commit
  | rollback id => exact effect_onSession r rfl _ fun s => s.advances_rollback
  | release id =>
    show Effect r _ (r.release id)
    unfold release
    cases hs : r.session? id with
    | none => exact .none _
    | some s => exact .released id s hs
  | makeSnapshot id => exact .saved id
  | loadSnapshot id =>
    show Effect r _ (r.orSame (r.loadSnapshot id)).2
    unfold loadSnapshot
    cases hs : r.snapshots.get? id with
    | none => exact .none _
    | some st => exact .loaded id st hs
  | dropSnapshot id =>
    show Effect r _ (r.orSame (r.dropSnapshot id)).2
    unfold dropSnapshot
    cases r.snapshots.contains id with
    | false => exact .none _
    | true => exact .dropped id

/-! ## The invariant -/

end Repository

namespace Session

/-- The session as it is after `s`, if that works on the same storage. -/
def following (t s : Session C) : Session C := if s.tx.home = t.tx.home then { t with storage := s.storage } else t

omit [DecidableEq κ] in
@[simp] theorem tx_following (t s : Session C) : (t.following s).tx = t.tx := by unfold following; split <;> rfl

theorem Sound.moved {t : Session C} (h : t.Sound) {tx : TxId} (hid : tx ≠ t.tx.id) {st : Storage C}
    (hm : Storage.Moves tx t.storage st) : { t with storage := st }.Sound where
  storage := hm.sound h.storage
  snapshot v hv := Nat.le_trans (h.snapshot v hv) hm.version_le
  touched ht := by
    refine h.touched ?_
    unfold Dict.contains at ht ⊢
    rw [← hm.touched_eq hid]
    exact ht
  queued := h.queued

end Session

namespace Repository

/-- Every transaction is known by its number and works, soundly, on a storage of the repository, and what a storage
notes as written is of such a transaction. -/
structure Sound (r : Repository C) : Prop where
  storage : ∀ home ≤ r.retired.length, (r.storage home).Sound
  saved : ∀ sid st, r.snapshots.get? sid = some st → st.Sound
  session : ∀ id s, r.session? id = some s → s.tx.id = id ∧ id ≤ r.lastTx ∧ s.tx.home ≤ r.retired.length ∧ s.Sound
  touched : ∀ home ≤ r.retired.length, ∀ id, (r.storage home).touched.contains id = true →
    ∃ s, r.session? id = some s ∧ s.tx.home = home

theorem sound_empty : ({} : Repository C).Sound where
  storage _ _ := Storage.sound_empty
  saved _ _ h := by cases h
  session _ _ h := by cases h
  touched _ _ _ h := by cases h

omit [DecidableEq κ] in
theorem storage_of_session? {r : Repository C} {id : TxId} {s : Session C} (hs : r.session? id = some s) :
    s.storage = r.storage s.tx.home := ((session?_eq_some_iff r id s).1 hs).2

omit [DecidableEq κ] in
theorem session?_putSession_self (r : Repository C) {s : Session C} (hh : s.tx.home ≤ r.retired.length) :
    (r.putSession s).session? s.tx.id = some s := by
  rw [session?_eq_some_iff, transaction?_putSession, if_pos rfl, storage_putSession r hh hh, if_pos rfl]
  exact ⟨rfl, rfl⟩

theorem session?_putSession_of_advances {r : Repository C} (h : r.Sound) {id : TxId} {s s' : Session C}
    (hs : r.session? id = some s) (hadv : Session.Advances s s') : (r.putSession s').session? id = some s' := by
  obtain ⟨hid, -, hhome, -⟩ := h.session id s hs
  rw [← hid, ← hadv.id]
  exact session?_putSession_self r (hadv.home ▸ hhome)

/-- **What a transaction does shows to the others in their storage alone.** -/
theorem session?_putSession_of_ne {r : Repository C} (h : r.Sound) {s : Session C} (hh : s.tx.home ≤ r.retired.length)
    {id : TxId} (hid : s.tx.id ≠ id) :
    (r.putSession s).session? id = (r.session? id).map (fun t => t.following s) := by
  cases ht : r.session? id with
  | none =>
    unfold session? at ht ⊢
    rw [transaction?_putSession, if_neg hid]
    rw [Option.map_eq_none_iff] at ht
    rw [ht]
    rfl
  | some t =>
    have hhome := (h.session id t ht).2.2.1
    obtain ⟨htx, hst⟩ := (session?_eq_some_iff r id t).1 ht
    refine (session?_eq_some_iff ..).2 ?_
    rw [transaction?_putSession, if_neg hid, Session.tx_following, storage_putSession r hh hhome]
    refine ⟨htx, ?_⟩
    unfold Session.following
    by_cases he : s.tx.home = t.tx.home
    · simp [he]
    · simp [he, hst]

/-- What is sound stays so when a transaction moves, as long as the storage notes nothing as its own unless it stays. -/
theorem sound_putSession {r : Repository C} (h : r.Sound) {id : TxId} {s s' : Session C} (hs : r.session? id = some s)
    (hid : s'.tx.id = s.tx.id) (hhome : s'.tx.home = s.tx.home) (hm : Storage.Moves s.tx.id s.storage s'.storage)
    (hsound : s'.Sound) : (r.putSession s').Sound := by
  obtain ⟨hsid, hle, hsh, hss⟩ := h.session id s hs
  have hst := storage_of_session? hs
  have hh' : s'.tx.home ≤ r.retired.length := hhome ▸ hsh
  have hid' : s'.tx.id = id := hid.trans hsid
  refine ⟨fun home hle => ?_, ?_, fun id' t ht => ?_, fun home hle id' ht => ?_⟩
  · rw [retired_length_putSession] at hle
    rw [storage_putSession r hh' hle]
    split
    · exact hsound.storage
    · exact h.storage home hle
  · rw [snapshots_putSession]
    exact h.saved
  · rw [lastTx_putSession, retired_length_putSession]
    by_cases hne : s'.tx.id = id'
    · rw [← hne, session?_putSession_self r hh'] at ht
      cases ht
      exact ⟨hne, by rw [← hne, hid']; exact hle, hh', hsound⟩
    · rw [session?_putSession_of_ne h hh' hne] at ht
      obtain ⟨u, hu, rfl⟩ := Option.map_eq_some_iff.1 ht
      obtain ⟨huid, hule, huh, hus⟩ := h.session id' u hu
      rw [Session.tx_following]
      refine ⟨huid, hule, huh, ?_⟩
      -- a session in the same storage goes on in it as it is now, and none of its own drafts has moved
      unfold Session.following
      split
      · rename_i he
        have hother : s.tx.id ≠ u.tx.id := by
          rw [huid, ← hid]
          exact hne
        refine hus.moved hother ?_
        rw [storage_of_session? hu, ← he, hhome, ← hst]
        exact hm
      · exact hus
  · rw [retired_length_putSession] at hle
    rw [storage_putSession r hh' hle] at ht
    by_cases hne : s'.tx.id = id'
    · refine ⟨s', hne ▸ session?_putSession_self r hh', ?_⟩
      by_cases he : s'.tx.home = home
      · exact he
      · rw [if_neg he] at ht
        obtain ⟨u, hu, rfl⟩ := h.touched home hle id' ht
        rw [← hne, hid', hs] at hu
        cases hu
        exact hhome
    · have hold : (r.storage home).touched.contains id' = true := by
        split at ht
        · rename_i he
          unfold Dict.contains at ht ⊢
          rw [hm.touched_eq (hid ▸ hne), hst, ← hhome, he] at ht
          exact ht
        · exact ht
      obtain ⟨u, hu, rfl⟩ := h.touched home hle id' hold
      refine ⟨u.following s', ?_, by rw [Session.tx_following]⟩
      rw [session?_putSession_of_ne h hh' hne, hu]
      rfl

/-- The session of the next transaction. -/
def begun (r : Repository C) (options : TxOptions) : Session C :=
  { tx := { id := r.lastTx + 1, home := r.retired.length, options }, storage := r.current }

omit [DecidableEq κ] in
theorem session?_start (r : Repository C) (options : TxOptions) (id : TxId) :
    (r.start options).2.session? id = if r.lastTx + 1 = id then some (r.begun options) else r.session? id := by
  unfold session? transaction? start
  rw [Dict.get?_insert]
  split
  · simp [storage, begun]
  · rfl

omit [DecidableEq κ] in
theorem storage_length (r : Repository C) : r.storage r.retired.length = r.current := by simp [storage]

omit [DecidableEq κ] in
theorem current_putSession (r : Repository C) {s : Session C} (hh : s.tx.home ≤ r.retired.length) :
    (r.putSession s).current = if s.tx.home = r.retired.length then s.storage else r.current := by
  rw [← storage_length, retired_length_putSession, storage_putSession r hh (Nat.le_refl _), storage_length]

theorem Sound.current {r : Repository C} (h : r.Sound) : r.current.Sound :=
  storage_length r ▸ h.storage _ (Nat.le_refl _)

/-- **Writes are noted of open transactions alone.** -/
theorem Sound.untouched_of_closed {r : Repository C} (h : r.Sound) {home : Nat} (hhome : home ≤ r.retired.length)
    {id : TxId} (hclosed : ∀ s, r.session? id = some s → s.tx.closedBy ≠ none) :
    (r.storage home).touched.contains id = false := by
  refine Bool.eq_false_iff.2 fun ht => ?_
  obtain ⟨s, hs, rfl⟩ := h.touched home hhome id ht
  obtain ⟨rfl, -, -, hsound⟩ := h.session id s hs
  rw [← storage_of_session? hs] at ht
  exact hclosed s hs (hsound.touched ht).1

theorem Sound.untouched_of_new {r : Repository C} (h : r.Sound) {home : Nat} (hhome : home ≤ r.retired.length) {id : TxId}
    (hnew : r.lastTx < id) : (r.storage home).touched.contains id = false :=
  h.untouched_of_closed hhome fun s hs => absurd (h.session id s hs).2.1 (Nat.not_le_of_lt hnew)

theorem Sound.untouched_begun {r : Repository C} (h : r.Sound) (options : TxOptions) :
    (r.begun options).storage.touched.contains (r.begun options).tx.id = false := by
  have hnew := h.untouched_of_new (Nat.le_refl _) (Nat.lt_succ_self r.lastTx)
  rw [storage_length] at hnew
  exact hnew

theorem sound_start {r : Repository C} (h : r.Sound) (options : TxOptions) : (r.start options).2.Sound where
  storage := h.storage
  saved := h.saved
  session id s hs := by
    rw [session?_start] at hs
    split at hs
    · rename_i he
      cases hs
      refine ⟨he, Nat.le_of_eq he.symm, Nat.le_refl _, h.current, nofun, fun ht => ?_, fun _ => rfl⟩
      rw [h.untouched_begun] at ht
      cases ht
    · obtain ⟨hid, hle, hrest⟩ := h.session id s hs
      exact ⟨hid, Nat.le_succ_of_le hle, hrest⟩
  touched home hle id ht := by
    obtain ⟨u, hu, hhome⟩ := h.touched home hle id ht
    refine ⟨u, ?_, hhome⟩
    rw [session?_start, if_neg]
    · exact hu
    · rintro rfl
      exact absurd (h.session _ u hu).2.1 (Nat.not_succ_le_self _)

omit [DecidableEq κ] in
theorem session?_forget (r : Repository C) (id other : TxId) :
    (r.forget id).session? other = if id = other then none else r.session? other := by
  unfold session? transaction? forget
  rw [Dict.get?_erase]
  split <;> rfl

theorem sound_forget {r : Repository C} (h : r.Sound) {s : Session C} {id : TxId} (hs : r.session? id = some s)
    (ht : s.storage.touched.contains id = false) : (r.forget id).Sound where
  storage := h.storage
  saved := h.saved
  session other u hu := by
    rw [session?_forget] at hu
    split at hu
    · cases hu
    · exact h.session other u hu
  touched home hle other hto := by
    obtain ⟨u, hu, hhome⟩ := h.touched home hle other hto
    refine ⟨u, ?_, hhome⟩
    rw [session?_forget, if_neg]
    · exact hu
    · rintro rfl
      rw [hs] at hu
      cases hu
      have hto : (r.storage home).touched.contains id = true := hto
      rw [← hhome, ← storage_of_session? hs, ht] at hto
      cases hto

omit [DecidableEq κ] in
theorem storage_load (r : Repository C) (st : Storage C) {home : Nat} (h : home ≤ r.retired.length + 1) :
    (r.load st).storage home = if home = r.retired.length + 1 then st.settled else r.storage home := by
  unfold load storage
  by_cases he : home = r.retired.length + 1
  · subst he
    simp
  · rw [if_neg he]
    rcases Nat.lt_or_ge home r.retired.length with hl | hl
    · simp [List.getElem?_append_left hl, hl]
    · have hl : home = r.retired.length := by omega
      subst hl
      simp

theorem session?_load {r : Repository C} (h : r.Sound) (st : Storage C) (id : TxId) :
    (r.load st).session? id = r.session? id := by
  show (r.transaction? id).map (fun tx => ({ tx, storage := (r.load st).storage tx.home } : Session C)) = r.session? id
  unfold session?
  cases ht : r.transaction? id with
  | none => rfl
  | some tx =>
    have hhome := (h.session id { tx, storage := r.storage tx.home } ((session?_eq_some_iff ..).2 ⟨ht, rfl⟩)).2.2.1
    dsimp only at hhome
    rw [Option.map_some, Option.map_some, storage_load r st (by omega), if_neg (by omega)]

theorem sound_load {r : Repository C} (h : r.Sound) {sid : X.uuid} {st : Storage C}
    (hs : r.snapshots.get? sid = some st) : (r.load st).Sound := by
  have hlen : (r.load st).retired.length = r.retired.length + 1 := by simp [load]
  refine ⟨fun home hle => ?_, h.saved, fun id s hs => ?_, fun home hle id ht => ?_⟩
  · rw [hlen] at hle
    rw [storage_load r st hle]
    split
    · exact Storage.sound_settled (h.saved sid st hs)
    · exact h.storage home (by omega)
  · rw [session?_load h] at hs
    obtain ⟨hid, hle, hhome, hsound⟩ := h.session id s hs
    exact ⟨hid, hle, by omega, hsound⟩
  · rw [hlen] at hle
    rw [storage_load r st hle] at ht
    split at ht
    · cases ht
    · rw [session?_load h]
      exact h.touched home (by omega) id ht

/-- **Every action keeps a repository sound.** -/
theorem sound_next {r : Repository C} (h : r.Sound) (a : Action C) : (r.next a).Sound := by
  have he := r.effect a
  generalize r.next a = r' at he
  cases he with
  | none => exact h
  | started options => exact sound_start h options
  | advanced id s s' ha hs hadv =>
    exact sound_putSession h hs hadv.id hadv.home hadv.moves (hadv.sound (h.session id s hs).2.2.2)
  | released id s hs =>
    obtain ⟨hid, -, -, hsound⟩ := h.session id s hs
    have hadv := s.advances_release
    have hput := sound_putSession h hs hadv.id hadv.home hadv.moves (hadv.sound hsound)
    exact sound_forget hput (session?_putSession_of_advances h hs hadv) (hid ▸ Session.touched_release hsound)
  | saved id =>
    refine ⟨h.storage, fun sid st hs => ?_, h.session, h.touched⟩
    have hs : (r.snapshots.insert id r.current.settled).get? sid = some st := hs
    rw [Dict.get?_insert] at hs
    split at hs
    · cases hs
      exact Storage.sound_settled h.current
    · exact h.saved sid st hs
  | loaded sid st hs => exact sound_load h hs
  | dropped sid =>
    refine ⟨h.storage, fun sid' st hs => ?_, h.session, h.touched⟩
    have hs : (r.snapshots.erase sid).get? sid' = some st := hs
    rw [Dict.get?_erase] at hs
    split at hs
    · cases hs
    · exact h.saved sid' st hs

theorem sound_after {r : Repository C} (h : r.Sound) (as : List (Action C)) : (r.after as).Sound := by
  induction as generalizing r with
  | nil => exact h
  | cons a rest ih => exact ih (sound_next h a)

theorem lastTx_next (r : Repository C) (a : Action C) : r.lastTx ≤ (r.next a).lastTx := by
  have he := r.effect a
  generalize r.next a = r' at he
  cases he with
  | none => exact Nat.le_refl _
  | started options => exact Nat.le_succ _
  | advanced id s s' _ _ _ => exact Nat.le_of_eq (lastTx_putSession ..).symm
  | released id s _ => exact Nat.le_of_eq (lastTx_putSession ..).symm
  | saved label => exact Nat.le_refl _
  | loaded id st _ => exact Nat.le_refl _
  | dropped id => exact Nat.le_refl _

theorem lastTx_after (as : List (Action C)) (r : Repository C) : r.lastTx ≤ (r.after as).lastTx := by
  induction as generalizing r with
  | nil => exact Nat.le_refl _
  | cons a rest ih => exact Nat.le_trans (r.lastTx_next a) (ih _)

end Repository

end EntityStore
