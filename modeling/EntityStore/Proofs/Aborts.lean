import EntityStore.Proofs.Absence
import EntityStore.Proofs.CommitOutcome
import EntityStore.Proofs.Turns
import Mathlib.Data.List.Induction
/-!
# Aborted transactions

A history is run once with a transaction that never commits and once without it.  `Repository.Lacks` relates the two
repositories, storage by storage; what the transaction does keeps the relation (`Lacks.next_of_out`), and so does what
the others do (`Lacks.perform`), who get the same answers.  The exception is a deletion under a key where the aborted
transaction has made a line: the line stays when its draft is discarded, and a deletion that would have come to nothing
publishes a version there.  `Repository.abort_leaves_no_trace` holds for all histories without such a deletion, and
`Repository.abort_leaves_a_line` is one with it.
-/
namespace EntityStore

variable {X : Scalars} {κ : Type} [DecidableEq κ] {C : κ → EntityType X}

/-! ## Histories without a transaction -/

namespace Action

/-- The action when `out` is never started. -/
def renumbered (out : TxId) : Action C → Action C
  | .openTable id k => .openTable (renumber out id) k
  | .statement id op => .statement (renumber out id) op
  | .record id f => .record (renumber out id) f
  | .commit id => .commit (renumber out id)
  | .rollback id => .rollback (renumber out id)
  | .release id => .release (renumber out id)
  | .start options => .start options
  | .makeSnapshot id => .makeSnapshot id
  | .loadSnapshot id => .loadSnapshot id
  | .dropSnapshot id => .dropSnapshot id

/-- The same answer to an action with `out` and without it. -/
def SameAnswer (out : TxId) : (a : Action C) → Except Error a.Answer → Except Error (a.renumbered out).Answer → Prop
  | .start _, answer, answer' => answer' = answer.map (renumber out)
  | .openTable _ _, answer, answer' | .statement _ _, answer, answer' | .record _ _, answer, answer'
  | .commit _, answer, answer' | .rollback _, answer, answer' | .release _, answer, answer'
  | .makeSnapshot _, answer, answer' | .loadSnapshot _, answer, answer' | .dropSnapshot _, answer, answer' =>
    Alike out answer answer'

/-- The action applies a deletion of a key, at once or with a queue. -/
def Deletes (k : κ) (c : Cells X) (s : Session C) : Action C → Prop
  | .statement _ op => s.tx.options.isImmediate = true ∧ op.write? = some ⟨k, c, .delete⟩
  | .commit _ => ∃ p ∈ s.tx.pending, p.toTableWrite = ⟨k, c, .delete⟩
  | _ => False

end Action

/-- The actions without those of `out`. -/
def without (out : TxId) (as : List (Action C)) : List (Action C) :=
  (as.filter (fun a => a.actor? ≠ some out)).map (Action.renumbered out)

omit [DecidableEq κ] in
theorem without_concat_of_actor {out : TxId} {a : Action C} (ha : a.actor? = some out) (as : List (Action C)) :
    without out (as ++ [a]) = without out as := by simp [without, ha]

omit [DecidableEq κ] in
theorem without_concat_of_ne {out : TxId} {a : Action C} (ha : a.actor? ≠ some out) (as : List (Action C)) :
    without out (as ++ [a]) = without out as ++ [a.renumbered out] := by simp [without, ha]

namespace Repository

/-- The transaction `out` commits. -/
def Commits (out : TxId) (r : Repository C) (a : Action C) : Prop := a = .commit out ∧ (r.commit out).1 = .ok ()

/-- The transaction `out` makes a line for a key that had none. -/
def Plants (out : TxId) (k : κ) (c : Cells X) (r : Repository C) (a : Action C) : Prop :=
  ∃ s, a.actor? = some out ∧ r.session? out = some s ∧ s.storage.hasLine k c = false ∧
    (a.turn s).storage.hasLine k c = true

/-- A transaction other than `out` deletes under a key. -/
def Deletes (out : TxId) (k : κ) (c : Cells X) (r : Repository C) (a : Action C) : Prop :=
  ∃ id s, id ≠ out ∧ a.actor? = some id ∧ r.session? id = some s ∧ a.Deletes k c s

end Repository

/-! ## A transaction that is started and not missed -/

namespace Storage

theorem lacks_self {s : Storage C} (h : s.Sound) {out : TxId} (planted : κ → Cells X → Prop)
    (hnew : ∀ id ≥ out, s.touched.contains id = false) : s.Lacks out planted s := by
  refine ⟨h, h, rfl, fun id hid k c => ?_, fun _ _ _ => rfl, fun _ _ _ => rfl, fun id hid => ?_, fun _ _ => id,
    fun _ _ => .inl⟩
  · rcases renumber_cases hid with he | ⟨hle, hle'⟩
    · rw [he]
    · rw [h.draft?_of_untouched (hnew _ hle'), h.draft?_of_untouched (hnew _ hle)]
  · rcases renumber_cases hid with he | ⟨hle, hle'⟩
    · rw [he]
    · rw [hnew _ hle', hnew _ hle]

theorem Lacks.mono {s s' : Storage C} {out : TxId} {planted planted' : κ → Cells X → Prop} (h : s.Lacks out planted s')
    (hp : ∀ k c, planted k c → planted' k c) : s.Lacks out planted' s' :=
  { h with planted := fun k c hl => (h.planted k c hl).imp_right (hp k c) }

end Storage

namespace Repository

/-- The second repository is the first one without the transaction `out`.  Of the saved storages only the published rows
count, since a load takes no more. -/
structure Lacks (out : TxId) (planted : κ → Cells X → Prop) (r r' : Repository C) : Prop where
  sound : r.Sound
  sound' : r'.Sound
  started : out ≤ r.lastTx
  lastTx : r.lastTx = r'.lastTx + 1
  retired : r'.retired.length = r.retired.length
  storage : ∀ home ≤ r.retired.length, (r.storage home).Lacks out planted (r'.storage home)
  saved : ∀ sid, Option.Rel (fun st st' : Storage C => st.settled.Lacks out planted st'.settled) (r.snapshots.get? sid)
    (r'.snapshots.get? sid)
  transaction : ∀ id ≠ out,
    (r'.transaction? (renumber out id)).map Transaction.face = (r.transaction? id).map Transaction.face

theorem transaction?_of_lastTx_lt {r : Repository C} (h : r.Sound) {id : TxId} (hid : r.lastTx < id) :
    r.transaction? id = none := by
  cases ht : r.transaction? id with
  | none => rfl
  | some t =>
    have hle := (h.session id ⟨t, r.storage t.home⟩ ((session?_eq_some_iff ..).2 ⟨ht, rfl⟩)).2.1
    exact absurd hle (Nat.not_le_of_lt hid)

/-- **A start is not missed.** -/
theorem lacks_start {r : Repository C} (h : r.Sound) (options : TxOptions) (planted : κ → Cells X → Prop) :
    Lacks (r.lastTx + 1) planted (r.start options).2 r where
  sound := sound_start h options
  sound' := h
  started := Nat.le_refl _
  lastTx := rfl
  retired := rfl
  storage home hle := by
    -- nobody has got a number that high
    exact Storage.lacks_self (h.storage home hle) planted fun id hid => h.untouched_of_new hle hid
  saved sid := by
    show Option.Rel _ (r.snapshots.get? sid) (r.snapshots.get? sid)
    cases hs : r.snapshots.get? sid with
    | none => exact .none
    | some st => exact .some (Storage.lacks_self (Storage.sound_settled (h.saved sid st hs)) planted fun _ _ => rfl)
  transaction id hid := by
    have hstart : (r.start options).2.transaction? id = r.transaction? id :=
      (Dict.get?_insert ..).trans (if_neg (Ne.symm hid))
    rw [hstart]
    rcases renumber_cases hid with he | ⟨hle, hle'⟩
    · rw [he]
    · rw [transaction?_of_lastTx_lt h hle, transaction?_of_lastTx_lt h hle']

namespace Lacks

variable {out id : TxId} {planted planted' : κ → Cells X → Prop} {r r' : Repository C}

theorem mono (h : Lacks out planted r r') (hp : ∀ k c, planted k c → planted' k c) : Lacks out planted' r r' :=
  { h with
    storage := fun home hle => (h.storage home hle).mono hp
    saved := fun sid => by
      have hsaved := h.saved sid
      generalize r.snapshots.get? sid = saved at hsaved
      generalize r'.snapshots.get? sid = saved' at hsaved
      cases hsaved with
      | none => exact .none
      | some hst => exact .some (hst.mono hp) }

theorem session? (h : Lacks out planted r r') (hid : id ≠ out) :
    (r.session? id = none ∧ r'.session? (renumber out id) = none) ∨
      ∃ s s', r.session? id = some s ∧ r'.session? (renumber out id) = some s' ∧ Session.Lacks out planted s s' := by
  have ht := h.transaction id hid
  cases hs : r.session? id with
  | none =>
    have hnone : r.transaction? id = none := Option.map_eq_none_iff.1 hs
    rw [hnone, Option.map_none, Option.map_eq_none_iff] at ht
    exact .inl ⟨rfl, Option.map_eq_none_iff.2 ht⟩
  | some s =>
    obtain ⟨htx, hst⟩ := (session?_eq_some_iff r id s).1 hs
    rw [htx, Option.map_some, Option.map_eq_some_iff] at ht
    obtain ⟨t', ht', hface⟩ := ht
    have hs' : r'.session? (renumber out id) = some ⟨t', r'.storage t'.home⟩ :=
      (session?_eq_some_iff ..).2 ⟨ht', rfl⟩
    obtain ⟨hsid, -, hhome, -⟩ := h.sound.session id s hs
    have hhome' : t'.home = s.tx.home := (congrArg Transaction.home hface :)
    have htid : t'.id = renumber out id := (h.sound'.session _ _ hs').1
    refine .inr ⟨s, _, rfl, hs', hface, htid.trans (congrArg _ hsid.symm), hsid ▸ hid, ?_⟩
    dsimp only
    rw [hst, hhome']
    exact h.storage _ hhome

theorem putSession (h : Lacks out planted r r') {s t s' t' : Session C} (hs : r.session? id = some s)
    (hs' : r'.session? (renumber out id) = some s') (hadv : Session.Advances s t) (hadv' : Session.Advances s' t')
    (ht : Session.Lacks out planted t t') : Lacks out planted (r.putSession t) (r'.putSession t') := by
  obtain ⟨-, -, hhome, hsound⟩ := h.sound.session id s hs
  obtain ⟨-, -, hhome', hsound'⟩ := h.sound'.session _ s' hs'
  have hth := hadv.home ▸ hhome
  have hth' := hadv'.home ▸ hhome'
  refine ⟨sound_putSession h.sound hs hadv.id hadv.home hadv.moves (hadv.sound hsound),
    sound_putSession h.sound' hs' hadv'.id hadv'.home hadv'.moves (hadv'.sound hsound'), ?_, ?_, ?_, ?_, ?_, ?_⟩
  · rw [lastTx_putSession]
    exact h.started
  · rw [lastTx_putSession, lastTx_putSession]
    exact h.lastTx
  · rw [retired_length_putSession, retired_length_putSession]
    exact h.retired
  · intro home hle
    rw [retired_length_putSession] at hle
    rw [storage_putSession r hth hle, storage_putSession r' hth' (h.retired ▸ hle), ht.home]
    split
    · exact ht.storage
    · exact h.storage home hle
  · rw [snapshots_putSession, snapshots_putSession]
    exact h.saved
  · intro other hother
    rw [transaction?_putSession, transaction?_putSession, ht.id]
    simp only [renumber_inj ht.other hother]
    split
    · exact congrArg some ht.face
    · exact h.transaction other hother

theorem forget (h : Lacks out planted r r') (hid : id ≠ out) (hsound : (r.forget id).Sound)
    (hsound' : (r'.forget (renumber out id)).Sound) :
    Lacks out planted (r.forget id) (r'.forget (renumber out id)) :=
  { h with
    sound := hsound
    sound' := hsound'
    transaction := fun other hother => by
      have hforget : (r.forget id).transaction? other = if id = other then none else r.transaction? other :=
        Dict.get?_erase ..
      have hforget' : (r'.forget (renumber out id)).transaction? (renumber out other) =
          if renumber out id = renumber out other then none else r'.transaction? (renumber out other) :=
        Dict.get?_erase ..
      rw [hforget, hforget']
      simp only [renumber_inj hid hother]
      split
      · rfl
      · exact h.transaction other hother }

/-! ### What the others do -/

theorem onSession {α : Type} (h : Lacks out planted r r') (hid : id ≠ out) (f : Session C → Except Error α × Session C)
    (hadv : ∀ s, Session.Advances s (f s).2)
    (hf : ∀ s s', r.session? id = some s → Session.Lacks out planted s s' →
      Alike out (f s).1 (f s').1 ∧ Session.Lacks out planted (f s).2 (f s').2) :
    Alike out (r.onSession id f).1 (r'.onSession (renumber out id) f).1 ∧
      Lacks out planted (r.onSession id f).2 (r'.onSession (renumber out id) f).2 := by
  rcases h.session? hid with ⟨hs, hs'⟩ | ⟨s, s', hs, hs', hlacks⟩
  · unfold Repository.onSession
    rw [hs, hs']
    exact ⟨.absent id, h⟩
  · obtain ⟨hfst, hsnd⟩ := hf s s' hs hlacks
    rw [onSession_of_some hs, onSession_of_some hs']
    exact ⟨hfst, h.putSession hs hs' (hadv s) (hadv s') hsnd⟩

theorem start (h : Lacks out planted r r') (options : TxOptions) :
    renumber out (r.lastTx + 1) = r'.lastTx + 1 ∧
      Lacks out planted (r.start options).2 (r'.start options).2 := by
  have hnumber : renumber out (r.lastTx + 1) = r'.lastTx + 1 := (renumber_succ h.started).trans h.lastTx
  refine ⟨hnumber, { h with
    sound := sound_start h.sound options
    sound' := sound_start h.sound' options
    started := Nat.le_succ_of_le h.started
    lastTx := congrArg (· + 1) h.lastTx
    transaction := fun id hid => ?_ }⟩
  have hstart : (r.start options).2.transaction? id =
      if r.lastTx + 1 = id then some (r.begun options).tx else r.transaction? id := Dict.get?_insert ..
  have hstart' : (r'.start options).2.transaction? (renumber out id) =
      if r'.lastTx + 1 = renumber out id then some (r'.begun options).tx else r'.transaction? (renumber out id) :=
    Dict.get?_insert ..
  have hbegun : (r'.begun options).tx.face = (r.begun options).tx.face := by
    unfold begun Transaction.face
    rw [h.retired]
  rw [hstart, hstart', ← hnumber]
  simp only [renumber_inj (Nat.ne_of_gt (Nat.lt_succ_of_le h.started)) hid]
  split
  · exact congrArg some hbegun
  · exact h.transaction id hid

theorem release (h : Lacks out planted r r') (hid : id ≠ out) :
    Lacks out planted (r.release id) (r'.release (renumber out id)) := by
  have hsound := sound_next h.sound (.release id)
  have hsound' := sound_next h.sound' (.release (renumber out id))
  rcases h.session? hid with ⟨hs, hs'⟩ | ⟨s, s', hs, hs', hlacks⟩
  · unfold Repository.release
    rw [hs, hs']
    exact h
  · have hrelease : r.release id = (r.putSession s.release).forget id := by
      unfold Repository.release
      rw [hs]
      rfl
    have hrelease' : r'.release (renumber out id) = (r'.putSession s'.release).forget (renumber out id) := by
      unfold Repository.release
      rw [hs']
      rfl
    have hput := h.putSession hs hs' s.advances_release s'.advances_release hlacks.release
    rw [hrelease, hrelease']
    exact hput.forget hid (hrelease ▸ hsound) (hrelease' ▸ hsound')

theorem save (h : Lacks out planted r r') (new : X.uuid) :
    Lacks out planted (r.makeSnapshot new) (r'.makeSnapshot new) := by
  have hsound := sound_next h.sound (.makeSnapshot new)
  have hsound' := sound_next h.sound' (.makeSnapshot new)
  have hcurrent := h.storage _ (Nat.le_refl _)
  rw [storage_length, ← h.retired, storage_length] at hcurrent
  refine { h with sound := hsound, sound' := hsound', saved := fun sid => ?_ }
  have hget (q : Repository C) : (q.makeSnapshot new).snapshots.get? sid =
      if new = sid then some q.current.settled else q.snapshots.get? sid := Dict.get?_insert ..
  rw [hget, hget]
  split
  · exact .some hcurrent.settled.settled
  · exact h.saved sid

theorem load (h : Lacks out planted r r') {sid : X.uuid} {st st' : Storage C} (hst : r.snapshots.get? sid = some st)
    (hst' : r'.snapshots.get? sid = some st') (hsettled : st.settled.Lacks out planted st'.settled) :
    Lacks out planted (r.load st) (r'.load st') := by
  have hlength : (r.load st).retired.length = r.retired.length + 1 := by simp [Repository.load]
  have hlength' : (r'.load st').retired.length = r.retired.length + 1 := by simp [Repository.load, h.retired]
  refine { h with
    sound := sound_load h.sound hst
    sound' := sound_load h.sound' hst'
    retired := hlength'.trans hlength.symm
    storage := fun home hle => ?_ }
  rw [hlength] at hle
  rw [storage_load r st hle, storage_load r' st' (h.retired ▸ hle), h.retired]
  split
  · exact hsettled
  · exact h.storage home (by omega)

theorem drop (h : Lacks out planted r r') (sid : X.uuid) :
    Alike out (r.orSame (r.dropSnapshot sid)).1 (r'.orSame (r'.dropSnapshot sid)).1 ∧
      Lacks out planted (r.orSame (r.dropSnapshot sid)).2 (r'.orSame (r'.dropSnapshot sid)).2 := by
  have hsound := sound_next h.sound (.dropSnapshot sid)
  have hsound' := sound_next h.sound' (.dropSnapshot sid)
  have hcontains : r'.snapshots.contains sid = r.snapshots.contains sid := by
    have hsaved := h.saved sid
    unfold Dict.contains
    generalize r.snapshots.get? sid = saved at hsaved
    generalize r'.snapshots.get? sid = saved' at hsaved
    cases hsaved <;> rfl
  replace hsound : (r.orSame (r.dropSnapshot sid)).2.Sound := hsound
  replace hsound' : (r'.orSame (r'.dropSnapshot sid)).2.Sound := hsound'
  unfold dropSnapshot at hsound hsound' ⊢
  rw [hcontains] at hsound' ⊢
  cases hc : r.snapshots.contains sid with
  | false => exact ⟨.same _, h⟩
  | true =>
    rw [hc] at hsound hsound'
    refine ⟨.same _, { h with sound := hsound, sound' := hsound', saved := fun other => ?_ }⟩
    show Option.Rel _ ((r.snapshots.erase sid).get? other) ((r'.snapshots.erase sid).get? other)
    rw [Dict.get?_erase, Dict.get?_erase]
    split
    · exact .none
    · exact h.saved other

/-- **What others do comes to the same answers**, unless they delete under a planted key. -/
theorem perform (h : Lacks out planted r r') (a : Action C) (ha : a.actor? ≠ some out)
    (hdel : ∀ k c, Deletes out k c r a → ¬planted k c) :
    a.SameAnswer out (r.perform a).1 (r'.perform (a.renumbered out)).1 ∧
      Lacks out planted (r.next a) (r'.next (a.renumbered out)) := by
  have hother : ∀ {id}, a.actor? = some id → id ≠ out := fun hid he => ha (he ▸ hid)
  cases a with
  | start options =>
    obtain ⟨hnumber, hnext⟩ := h.start options
    exact ⟨congrArg Except.ok hnumber.symm, hnext⟩
  | openTable id k =>
    exact h.onSession (hother rfl) (fun s => (.ok (), s.openTable k)) (fun s => (Session.Reads.openTable s k).advances)
      fun s s' _ hs => ⟨.same _, hs.openTable k⟩
  | statement id op =>
    refine h.onSession (hother rfl) op.run (fun s => s.advances_statement op) fun s s' hs hlacks => ?_
    obtain ⟨hfst, hsnd⟩ := hlacks.run op fun k c hi hop => hdel k c ⟨id, s, hother rfl, rfl, hs, hi, hop⟩
    exact ⟨hfst ▸ .same _, hsnd⟩
  | record id f =>
    have hrecord := h.onSession (hother rfl)
      (fun s => (Except.ok (), { s with tx := { s.tx with log := f s.tx.log } }))
      (fun s => (Session.Reads.record s f).advances)
      fun s s' _ hs => ⟨.same _, hs.log ..⟩
    exact ⟨.same _, hrecord.2⟩
  | commit id =>
    refine h.onSession (hother rfl) Session.commit (fun s => s.advances_commit) fun s s' hs hlacks => ?_
    refine hlacks.commit fun p hp hw => hdel p.kind p.write.cells ⟨id, s, hother rfl, rfl, hs, p, hp, ?_⟩
    unfold Pending.toTableWrite
    rw [← hw]
  | rollback id =>
    exact h.onSession (hother rfl) Session.rollback (fun s => s.advances_rollback) fun s s' _ hs => hs.rollback
  | release id => exact ⟨.same _, h.release (hother rfl)⟩
  | makeSnapshot new => exact ⟨.same _, h.save new⟩
  | loadSnapshot sid =>
    show Alike out (r.orSame (r.loadSnapshot sid)).1 (r'.orSame (r'.loadSnapshot sid)).1 ∧
      Lacks out planted (r.orSame (r.loadSnapshot sid)).2 (r'.orSame (r'.loadSnapshot sid)).2
    have hsaved := h.saved sid
    unfold loadSnapshot
    generalize hst : r.snapshots.get? sid = saved at hsaved
    generalize hst' : r'.snapshots.get? sid = saved' at hsaved
    cases hsaved with
    | none => exact ⟨.same _, h⟩
    | some hsettled => exact ⟨.same _, h.load hst hst' hsettled⟩
  | dropSnapshot sid => exact h.drop sid

/-! ### What the transaction itself does -/

/-- **What `out` does without committing is not missed.** -/
theorem next_of_out (h : Lacks out planted r r') {a : Action C} (ha : a.actor? = some out) (hfail : ¬Commits out r a)
    (hp : ∀ k c, planted k c → planted' k c) (hnew : ∀ k c, Plants out k c r a → planted' k c) :
    Lacks out planted' (r.next a) r' := by
  obtain ⟨hretired, hlast, hsaved, htransaction⟩ := frame_of_actor h.sound ha
  refine ⟨sound_next h.sound a, h.sound', hlast ▸ h.started, hlast.trans h.lastTx,
    h.retired.trans hretired.symm, fun home hle => ?_, ?_, fun id hid => ?_⟩
  · rw [hretired] at hle
    rcases storage_next h.sound a hle with ⟨hsame, -⟩ | ⟨id, s, hact, hs, rfl, hstorage⟩
    · rw [hsame]
      exact (h.storage home hle).mono hp
    · rw [ha] at hact
      cases hact
      have hadv := a.advances_turn s
      have hlacks := h.storage s.tx.home hle
      rw [← storage_of_session? hs] at hlacks
      rw [hstorage]
      -- without a commit that gets through, nothing is published
      refine hlacks.moves ((h.sound.session out s hs).1 ▸ hadv.moves) (a.version_turn s ?_) hp fun k c hl hl' =>
        hnew k c ⟨s, ha, hs, hl, hl'⟩
      rintro id rfl hok
      cases ha
      exact hfail ⟨rfl, (congrArg Prod.fst (onSession_of_some hs Session.commit)).trans hok⟩
  · rw [hsaved]
    exact (h.mono hp).saved
  · rw [htransaction id (Ne.symm hid)]
    exact h.transaction id hid

end Lacks

/-- **A run with a transaction that never commits, and the run without it.** -/
theorem lacks_after {r : Repository C} (h : r.Sound) (options : TxOptions) {rest : List (Action C)}
    (hfail : ¬(r.start options).2.Happens (Commits (r.lastTx + 1)) rest)
    (hlines : ∀ k c, ¬(r.start options).2.Follows (Plants (r.lastTx + 1) k c) (Deletes (r.lastTx + 1) k c) rest) :
    Lacks (r.lastTx + 1) (fun k c => (r.start options).2.Happens (Plants (r.lastTx + 1) k c) rest)
      ((r.start options).2.after rest) (r.after (without (r.lastTx + 1) rest)) := by
  induction rest using List.reverseRecOn with
  | nil => exact lacks_start h options _
  | append_singleton rest a ih =>
    simp only [happens_concat, follows_concat, not_or] at hfail hlines ⊢
    have hrest := ih hfail.1 fun k c => (hlines k c).1
    rw [after_concat]
    by_cases ha : a.actor? = some (r.lastTx + 1)
    · rw [without_concat_of_actor ha]
      exact hrest.next_of_out ha hfail.2 (fun _ _ => .inl) fun _ _ => .inr
    · rw [without_concat_of_ne ha, after_concat]
      refine (hrest.perform a ha fun k c hdel hplanted => (hlines k c).2 ⟨hplanted, hdel⟩).2.mono fun _ _ => .inl

/-- **Aborted transactions leave no trace**, unless another transaction deletes under a key where they have made a line.
Take any history with a transaction that never commits, and take its actions out.  Everything that others do afterwards
comes to the same answer, and the version is the same; only the numbers of later transactions are others, and where
several locks conflict, another one may be named. -/
theorem abort_leaves_no_trace (past rest : List (Action C)) (options : TxOptions) (out : TxId) (a : Action C)
    (hout : ((({} : Repository C).after past).perform (.start options)).1 = .ok out)
    (hfail : ¬({} : Repository C).Happens (Commits out) (past ++ .start options :: rest))
    (hlines : ∀ k c,
      ¬({} : Repository C).Follows (Plants out k c) (Deletes out k c) (past ++ .start options :: (rest ++ [a])))
    (ha : a.actor? ≠ some out) :
    let r := ({} : Repository C).after (past ++ .start options :: rest)
    let r' := ({} : Repository C).after (past ++ without out rest)
    r'.version = r.version ∧ a.SameAnswer out (r.perform a).1 (r'.perform (a.renumbered out)).1 := by
  obtain rfl : (({} : Repository C).after past).lastTx + 1 = out := Except.ok.inj hout
  intro r r'
  have hsound : (({} : Repository C).after past).Sound := sound_after sound_empty past
  have hlines' : ∀ k c, ¬((({} : Repository C).after past).start options).2.Follows _ _ (rest ++ [a]) := fun k c hf =>
    hlines k c (follows_append_right _ _ past (.inr hf))
  simp only [follows_concat, not_or] at hlines'
  have hlacks := lacks_after hsound options (fun hc => hfail (happens_append_right _ past (.inr hc)))
    fun k c => (hlines' k c).1
  have hr : r = ((({} : Repository C).after past).start options).2.after rest := after_append ..
  have hr' : r' = (({} : Repository C).after past).after (without _ rest) := after_append ..
  rw [← hr, ← hr'] at hlacks
  refine ⟨?_, (hlacks.perform a ha fun k c hdel hplanted => (hlines' k c).2 ⟨hplanted, hr ▸ hdel⟩).1⟩
  have hcurrent := hlacks.storage _ (Nat.le_refl _)
  rw [storage_length, ← hlacks.retired, storage_length] at hcurrent
  exact hcurrent.version

end Repository

namespace Sample

/-- The second transaction saves an item and takes it back. -/
def abort : List (Action (catalog "sample")) :=
  [.statement 2 (.save .item (numbered 2 "second")), .rollback 2, .start { writeMode := .immediate }]

/-- The first transaction saves an item and takes it back, and the second one deletes it.  The third one has found
nothing there before. -/
def deletionAfterAbort : List (Action (catalog "sample")) :=
  [.statement 1 (.save .item (numbered 1 "first")), .rollback 1, .start { writeMode := .immediate }, .start {},
    .statement 3 (.find .item itemIdent), .statement 3 (.save .item (numbered 2 "other")),
    .statement 2 (.delete .item itemIdent), .commit 2]

end Sample

open Sample in
/-- The item that was taken back can be inserted. -/
theorem Repository.abort_leaves_no_trace_before_insertion :
    let r := ({} : Repository (catalog "sample")).after (oneItem ++ .start { writeMode := .immediate } :: abort)
    let r' := ({} : Repository (catalog "sample")).after (oneItem ++ without 2 abort)
    r'.version = r.version ∧ Alike 2 (r.perform (.statement 3 (.insert .item (numbered 2 "other")))).1
      (r'.perform (.statement 2 (.insert .item (numbered 2 "other")))).1 := by
  refine abort_leaves_no_trace oneItem abort { writeMode := .immediate } 2
    (.statement 3 (.insert .item (numbered 2 "other"))) rfl ?_ (fun k c hfollows => ?_) nofun
  · simp [Happens, Commits, oneItem, abort]
  · have hinsert : ∀ r : Repository (catalog "sample"),
        ¬Deletes 2 k c r (.statement 3 (.insert .item (numbered 2 "other"))) := by
      rintro r ⟨-, -, -, -, -, -, hw⟩
      cases hw
    simp [Follows, Happens, hinsert, Plants, Action.actor?, oneItem, abort] at hfollows
    simp [Deletes, Action.actor?, Action.Deletes] at hfollows

open Sample in
/-- The line that the first transaction has left makes the second one's deletion a version, and that version stops the
third one.  Without the first, the third is the second, and gets through. -/
theorem Repository.abort_leaves_a_line :
    let r := ({} : Repository (catalog "sample")).after (.start { writeMode := .immediate } :: deletionAfterAbort)
    let r' := ({} : Repository (catalog "sample")).after (without 1 deletionAfterAbort)
    ¬({} : Repository (catalog "sample")).Happens (Commits 1)
        (.start { writeMode := .immediate } :: deletionAfterAbort) ∧
      r.version = 1 ∧ r'.version = 1 ∧
      (∃ message, (r.perform (.commit 3)).1 = .error (.optimisticLock message)) ∧
      (r'.perform (.commit 2)).1 = .ok () := by
  refine ⟨?_, rfl, rfl, ⟨_, rfl⟩, rfl⟩
  simp [Happens, Commits, deletionAfterAbort]

end EntityStore
