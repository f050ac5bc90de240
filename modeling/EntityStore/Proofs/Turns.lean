import EntityStore.Proofs.Locking
import EntityStore.Proofs.Repositories
import Mathlib.Data.List.Induction
/-!
# Actions as turns of one transaction

Seen from one transaction, an action is its start, its own turn, or something that happens beside it
(`Repository.next_cases`); seen from one storage, it is a turn of a transaction that works there, or nothing
(`Repository.storage_next`).  `Repository.Happens` says of a run that some action in it was of a certain kind, and
`Repository.Follows` that one of a second kind came after one of a first.  What is to be shown of the transactions that
are open at the end of each run comes down to their starts, their statements and what leaves them alone
(`Repository.open_induction`).
-/
namespace EntityStore

variable {X : Scalars} {κ : Type} [DecidableEq κ] {C : κ → EntityType X}

/-- What an action makes of the transaction that acts. -/
def Action.turn (a : Action C) (s : Session C) : Session C :=
  match a with
  | .openTable _ k => s.openTable k
  | .statement _ op => (op.run s).2
  | .record _ f => { s with tx := { s.tx with log := f s.tx.log } }
  | .commit _ => s.commit.2
  | .rollback _ => s.rollback.2
  | .release _ => s.release
  | .start _ | .makeSnapshot _ | .loadSnapshot _ | .dropSnapshot _ => s

theorem Action.advances_turn (a : Action C) (s : Session C) : Session.Advances s (a.turn s) := by
  cases a with
  | openTable id k => exact (Session.Reads.openTable s k).advances
  | statement id op => exact s.advances_statement op
  | record id f => exact (Session.Reads.record s f).advances
  | commit id => exact s.advances_commit
  | rollback id => exact s.advances_rollback
  | release id => exact s.advances_release
  | _ => exact .refl s

theorem Action.isOpen_of_turn (a : Action C) {s : Session C} (h : (a.turn s).tx.closedBy = none) :
    s.tx.closedBy = none := by
  by_cases hc : s.tx.closedBy = none
  · exact hc
  · exact absurd (((a.advances_turn s).closed hc).symm.trans h) hc

/-- Nothing changed but the log, and the tables that are open. -/
structure Session.Idles (s s' : Session C) : Prop where
  notes : Session.Notes s s'
  cache : ∀ k, s'.tx.cache k = s.tx.cache k
  locks : s'.tx.locks = s.tx.locks
  invalidated : s'.tx.invalidated = s.tx.invalidated

theorem Action.idles_turn (a : Action C) {s : Session C} (h : (a.turn s).tx.closedBy = none)
    (hstatement : ∀ id op, a ≠ .statement id op) (hrelease : ∀ id, a ≠ .release id) : Session.Idles s (a.turn s) := by
  have hsame : a.turn s = s → Session.Idles s (a.turn s) := fun he => by
    rw [he]
    exact ⟨.refl s, fun _ => rfl, rfl, rfl⟩
  cases a with
  | openTable id k => exact ⟨.openTable s k, s.cache_openTable k, s.locks_openTable k, s.invalidated_openTable k⟩
  | record id f => exact ⟨⟨.record s f, rfl⟩, fun _ => rfl, rfl, rfl⟩
  | commit id => exact hsame (Session.commit_of_isOpen h)
  | rollback id => exact hsame (Session.rollback_of_isOpen h)
  | statement id op => exact absurd rfl (hstatement id op)
  | release id => exact absurd rfl (hrelease id)
  | _ => exact hsame rfl

theorem Action.version_turn (a : Action C) (s : Session C) (h : ∀ id, a = .commit id → s.commit.1 ≠ .ok ()) :
    (a.turn s).storage.version = s.storage.version := by
  cases a with
  | openTable id k => exact congrArg Storage.version (Session.Reads.openTable s k).storage
  | statement id op =>
    cases op.effect s with
    | reads hr _ => exact congrArg Storage.version hr.storage
    | queues w _ _ _ _ hq _ => exact congrArg Storage.version hq.storage
    | applies w _ _ _ _ ha _ => exact (congrArg Storage.version ha.storage).trans (Storage.version_write ..)
  | commit id =>
    cases hc : s.commit.1 with
    | ok u => exact absurd hc (h id rfl)
    | error e => exact Session.version_commit_of_error hc
  | rollback id => exact s.version_rollback
  | release id => exact s.version_release
  | _ => rfl

namespace Repository

variable {r : Repository C} {a : Action C} {id : TxId}

theorem next_of_actor {s : Session C} (ha : a.actor? = some id) (hs : r.session? id = some s) :
    r.next a = r.putSession (a.turn s) ∨ a = .release id ∧ r.next a = (r.putSession (a.turn s)).forget id := by
  cases a with
  | openTable other k => cases ha; exact .inl (congrArg Prod.snd (onSession_of_some hs _))
  | statement other op => cases ha; exact .inl (congrArg Prod.snd (onSession_of_some hs _))
  | record other f =>
    cases ha
    exact .inl (congrArg Prod.snd
      (onSession_of_some hs fun s => (Except.ok (), { s with tx := { s.tx with log := f s.tx.log } })))
  | commit other => cases ha; exact .inl (congrArg Prod.snd (onSession_of_some hs _))
  | rollback other => cases ha; exact .inl (congrArg Prod.snd (onSession_of_some hs _))
  | release other =>
    cases ha
    refine .inr ⟨rfl, ?_⟩
    show r.release id = _
    unfold release
    rw [hs]
    rfl
  | _ => cases ha

theorem next_of_absent (ha : a.actor? = some id) (hs : r.session? id = none) : r.next a = r := by
  cases a with
  | release other =>
    cases ha
    show r.release id = r
    unfold release
    rw [hs]
  | openTable other k => cases ha; exact snd_onSession_of_none hs _
  | statement other op => cases ha; exact snd_onSession_of_none hs _
  | record other f =>
    cases ha
    exact snd_onSession_of_none hs fun s => (Except.ok (), { s with tx := { s.tx with log := f s.tx.log } })
  | commit other => cases ha; exact snd_onSession_of_none hs _
  | rollback other => cases ha; exact snd_onSession_of_none hs _
  | _ => cases ha

theorem tx_next_of_ne (h : r.Sound) (ha : a.actor? ≠ some id) {s' : Session C} (hs' : (r.next a).session? id = some s') :
    (∃ s, r.session? id = some s ∧ s'.tx = s.tx) ∨ ∃ o, a = .start o ∧ s' = r.begun o := by
  -- the move of another transaction's session, on the same storage or on another one
  have hput : ∀ (other : TxId) (t t' : Session C), other ≠ id → r.session? other = some t → Session.Advances t t' →
      (r.putSession t').session? id = some s' → ∃ s, r.session? id = some s ∧ s'.tx = s.tx := by
    intro other t t' hne ht hadv hs'
    obtain ⟨htid, -, hthome, -⟩ := h.session other t ht
    rw [session?_putSession_of_ne h (hadv.home ▸ hthome) (hadv.id.trans htid ▸ hne)] at hs'
    obtain ⟨s, hs, rfl⟩ := Option.map_eq_some_iff.1 hs'
    exact ⟨s, hs, s.tx_following t'⟩
  have he := r.effect a
  generalize r.next a = r' at he hs'
  cases he with
  | none => exact .inl ⟨s', hs', rfl⟩
  | started options =>
    rw [session?_start] at hs'
    split at hs'
    · cases hs'
      exact .inr ⟨options, rfl, rfl⟩
    · exact .inl ⟨s', hs', rfl⟩
  | advanced other t t' hact ht hadv =>
    refine .inl (hput other t t' ?_ ht hadv hs')
    rintro rfl
    exact ha hact
  | released other t ht =>
    rw [session?_forget] at hs'
    split at hs'
    · cases hs'
    · rename_i hne
      exact .inl (hput other t _ hne ht t.advances_release hs')
  | saved label => exact .inl ⟨s', hs', rfl⟩
  | loaded sid st hst =>
    rw [session?_load h] at hs'
    exact .inl ⟨s', hs', rfl⟩
  | dropped sid => exact .inl ⟨s', hs', rfl⟩

/-- **What an action is to a transaction that there is afterwards.** -/
theorem next_cases (h : r.Sound) (a : Action C) {s' : Session C} (hs' : (r.next a).session? id = some s') :
    (∃ o, a = .start o ∧ s' = r.begun o) ∨
      ∃ s, r.session? id = some s ∧ (a.actor? ≠ some id ∧ s'.tx = s.tx ∨ a.actor? = some id ∧ s' = a.turn s) := by
  by_cases ha : a.actor? = some id
  · right
    cases hs : r.session? id with
    | none =>
      rw [next_of_absent ha hs, hs] at hs'
      cases hs'
    | some s =>
      refine ⟨s, rfl, .inr ⟨ha, ?_⟩⟩
      rcases next_of_actor ha hs with hput | ⟨-, hforget⟩
      · rw [hput, session?_putSession_of_advances h hs (a.advances_turn s)] at hs'
        exact (Option.some.inj hs').symm
      · rw [hforget, session?_forget, if_pos rfl] at hs'
        cases hs'
  · rcases tx_next_of_ne h ha hs' with ⟨s, hs, htx⟩ | hstart
    · exact .inr ⟨s, hs, .inl ⟨ha, htx⟩⟩
    · exact .inl hstart

theorem kept_next {P : Transaction C → Prop} (hr : r.Sound) (hid : id ≤ r.lastTx)
    (h : ∀ s, r.session? id = some s → P s.tx) (hturn : ∀ s, r.session? id = some s → P s.tx → P (a.turn s).tx) :
    ∀ s, (r.next a).session? id = some s → P s.tx := by
  intro s' hs'
  rcases next_cases hr a hs' with ⟨o, -, rfl⟩ | ⟨s, hs, ⟨-, htx⟩ | ⟨-, rfl⟩⟩
  · have hnew : r.lastTx + 1 = id := ((sound_next hr a).session id _ hs').1
    exact absurd hid (hnew ▸ Nat.not_succ_le_self _)
  · exact htx ▸ h s hs
  · exact hturn s hs (h s hs)

/-- **What an action is to a storage that there was before.** -/
theorem storage_next (h : r.Sound) (a : Action C) {home : Nat} (hhome : home ≤ r.retired.length) :
    ((r.next a).storage home = r.storage home ∧ ∀ id s, a.actor? = some id → r.session? id = some s → s.tx.home ≠ home) ∨
      ∃ id s, a.actor? = some id ∧ r.session? id = some s ∧ s.tx.home = home ∧
        (r.next a).storage home = (a.turn s).storage := by
  cases hact : a.actor? with
  | none =>
    refine .inl ⟨?_, fun _ _ hnone => by cases hnone⟩
    have he := r.effect a
    generalize r.next a = r' at he
    cases he with
    | loaded sid st hst => rw [storage_load r st (Nat.le_succ_of_le hhome), if_neg (by omega)]
    | advanced other t t' hact' => rw [hact] at hact'; cases hact'
    | released other t ht => cases hact
    | _ => rfl
  | some id =>
    cases hs : r.session? id with
    | none =>
      refine .inl ⟨by rw [next_of_absent hact hs], fun other s he hs' => ?_⟩
      cases he
      rw [hs] at hs'
      cases hs'
    | some s =>
      obtain ⟨-, -, hsh, -⟩ := h.session id s hs
      have hadv := a.advances_turn s
      have hstorage : (r.next a).storage home = if s.tx.home = home then (a.turn s).storage else r.storage home := by
        rw [← hadv.home]
        rcases next_of_actor hact hs with hput | ⟨-, hforget⟩
        · rw [hput, storage_putSession r (hadv.home ▸ hsh) hhome]
        · rw [hforget]
          exact storage_putSession r (hadv.home ▸ hsh) hhome
      by_cases he : s.tx.home = home
      · exact .inr ⟨id, s, rfl, hs, he, by rw [hstorage, if_pos he]⟩
      · refine .inl ⟨by rw [hstorage, if_neg he], fun other s' heq hs' => ?_⟩
        cases heq
        rw [hs] at hs'
        cases hs'
        exact he

theorem frame_of_actor (h : r.Sound) (ha : a.actor? = some id) :
    (r.next a).retired.length = r.retired.length ∧ (r.next a).lastTx = r.lastTx ∧
      (r.next a).snapshots = r.snapshots ∧
      ∀ other, id ≠ other → (r.next a).transaction? other = r.transaction? other := by
  cases hs : r.session? id with
  | none =>
    rw [next_of_absent ha hs]
    exact ⟨rfl, rfl, rfl, fun _ _ => rfl⟩
  | some s =>
    have hput : ∀ other, id ≠ other → (r.putSession (a.turn s)).transaction? other = r.transaction? other := by
      intro other hne
      rw [transaction?_putSession, (a.advances_turn s).id, (h.session id s hs).1, if_neg hne]
    rcases next_of_actor ha hs with he | ⟨-, he⟩
    · rw [he]
      exact ⟨retired_length_putSession .., lastTx_putSession .., snapshots_putSession .., hput⟩
    · rw [he]
      refine ⟨retired_length_putSession .., lastTx_putSession .., snapshots_putSession ..,
        fun other hne => (Dict.get?_erase ..).trans ?_⟩
      rw [if_neg hne]
      exact hput other hne

/-! ## What happens in a run -/

/-- Some action of a run is as `P` tells from the state before it. -/
def Happens (P : Repository C → Action C → Prop) (r : Repository C) : List (Action C) → Prop
  | [] => False
  | a :: rest => P r a ∨ (r.next a).Happens P rest

theorem happens_append (P : Repository C → Action C → Prop) (bs : List (Action C)) : ∀ (as : List (Action C))
    (r : Repository C), r.Happens P (as ++ bs) ↔ r.Happens P as ∨ (r.after as).Happens P bs
  | [], r => by simp [Happens, after]
  | a :: rest, r => by
    rw [List.cons_append, Happens, Happens, happens_append P bs rest, or_assoc]
    rfl

theorem happens_concat (P : Repository C → Action C → Prop) (a : Action C) (as : List (Action C)) (r : Repository C) :
    r.Happens P (as ++ [a]) ↔ r.Happens P as ∨ P (r.after as) a :=
  (happens_append P [a] as r).trans (or_congr_right (iff_of_eq (or_false _)))

theorem happens_append_right (P : Repository C → Action C → Prop) {bs : List (Action C)} (as : List (Action C))
    {r : Repository C} (h : (r.after as).Happens P bs) : r.Happens P (as ++ bs) := (happens_append P bs as r).2 (.inr h)

theorem exists_of_happens {P : Repository C → Action C → Prop} : ∀ {as : List (Action C)} {r : Repository C},
    r.Happens P as → ∃ a ∈ as, ∃ r', P r' a
  | a :: _, r, .inl h => ⟨a, List.mem_cons_self, r, h⟩
  | _ :: _, _, .inr h =>
    let ⟨a, ha, h⟩ := exists_of_happens h
    ⟨a, List.mem_cons_of_mem _ ha, h⟩

theorem not_happens_of_lt {P : Repository C → Action C → Prop} (hP : ∀ r a, P r a → ∃ s, r.session? id = some s) :
    ∀ (as : List (Action C)) {r : Repository C}, r.Sound → (r.after as).lastTx < id → ¬r.Happens P as
  | [], _, _, _, h => h
  | a :: rest, r, hr, hlt, h => by
    rcases h with hp | hrest
    · obtain ⟨s, hs⟩ := hP r a hp
      exact absurd (Nat.le_trans (hr.session id s hs).2.1 (r.lastTx_after (a :: rest))) (Nat.not_le_of_lt hlt)
    · exact not_happens_of_lt hP rest (sound_next hr a) hlt hrest

/-- In a run, an action as `P` tells comes before one as `Q` tells. -/
def Follows (P Q : Repository C → Action C → Prop) (r : Repository C) : List (Action C) → Prop
  | [] => False
  | a :: rest => P r a ∧ (r.next a).Happens Q rest ∨ (r.next a).Follows P Q rest

theorem follows_append_right (P Q : Repository C → Action C → Prop) {bs : List (Action C)} : ∀ (as : List (Action C))
    {r : Repository C}, (r.after as).Follows P Q bs → r.Follows P Q (as ++ bs)
  | [], _, h => h
  | _ :: rest, _, h => .inr (follows_append_right P Q rest h)

theorem follows_concat (P Q : Repository C → Action C → Prop) (a : Action C) : ∀ (as : List (Action C))
    (r : Repository C), r.Follows P Q (as ++ [a]) ↔ r.Follows P Q as ∨ r.Happens P as ∧ Q (r.after as) a
  | [], r => by simp [Follows, Happens]
  | b :: rest, r => by
    rw [List.cons_append, Follows, Follows, follows_concat P Q a rest, happens_concat, Happens]
    simp only [and_or_left, or_and_right, or_assoc]
    rw [or_left_comm (a := P r b ∧ Q ((r.next b).after rest) a)]
    rfl

/-! ## Open transactions in a run -/

/-- **What a transaction has from its start on and keeps while it is open.**  It is enough to look at its statements, at
its turns that idle, and at what happens beside it. -/
theorem open_induction {P : List (Action C) → Session C → Prop}
    (start : ∀ as o, (({} : Repository C).after as).lastTx + 1 = id →
      P (as ++ [.start o]) ((({} : Repository C).after as).begun o))
    (beside : ∀ as a s s', (({} : Repository C).after as).session? id = some s →
      (({} : Repository C).after (as ++ [a])).session? id = some s' → a.actor? ≠ some id → s'.tx = s.tx →
        P as s → P (as ++ [a]) s')
    (statement : ∀ as op s, (({} : Repository C).after as).session? id = some s → s.tx.closedBy = none →
      P as s → P (as ++ [.statement id op]) (op.run s).2)
    (idle : ∀ as a s s', (({} : Repository C).after as).session? id = some s → (∀ op, a ≠ .statement id op) →
      Session.Idles s s' → P as s → P (as ++ [a]) s') :
    ∀ as s, (({} : Repository C).after as).session? id = some s → s.tx.closedBy = none → P as s := by
  intro as
  induction as using List.reverseRecOn with
  | nil =>
    intro s hs
    cases hs
  | append_singleton as a ih =>
    intro s' hs' ho
    have hr := sound_after (sound_empty (C := C)) as
    have hnext := hs'
    rw [after_concat] at hnext
    rcases next_cases hr a hnext with ⟨o, rfl, rfl⟩ | ⟨s, hs, ⟨hne, htx⟩ | ⟨hact, rfl⟩⟩
    · exact start as o ((sound_next hr _).session id _ hnext).1
    · exact beside as a s s' hs hs' hne htx (ih s hs (htx ▸ ho))
    · have hopen := a.isOpen_of_turn ho
      by_cases hstatement : ∃ op, a = .statement id op
      · obtain ⟨op, rfl⟩ := hstatement
        exact statement as op s hs hopen (ih s hs hopen)
      · have hother : ∀ op, a ≠ .statement id op := fun op he => hstatement ⟨op, he⟩
        refine idle as a s _ hs hother (a.idles_turn ho ?_ ?_) (ih s hs hopen)
        · rintro other op rfl
          cases hact
          exact hother op rfl
        · rintro other rfl
          cases hact
          -- there is no transaction left
          have hreleased : ((({} : Repository C).after as).release id).session? id = some _ := hnext
          unfold release at hreleased
          rw [hs] at hreleased
          have hgone := (session?_forget ((({} : Repository C).after as).putSession s.release) id id).trans (if_pos rfl)
          cases hreleased.symm.trans hgone

end Repository

end EntityStore
