import EntityStore.Proofs.Diary
import EntityStore.Samples.Catalog
/-!
# Serializability

As long as all transactions may write, do not scan and queue their writes, the diary is true (`Diary.Tells.along`): run
one after another in the order of their commits, the transactions say the same, and leave the same
(`Repository.serializable`).
-/
namespace EntityStore

variable {X : Scalars} {κ : Type} [DecidableEq κ] {C : κ → EntityType X}

/-- The diary is true of a repository that began as `r₀`. -/
structure Diary.Tells (d : Diary C) (r₀ r : Repository C) : Prop where
  place : r.retired.length = r₀.retired.length
  explains : Explains r₀ d.writers d.readers r.current
  session : ∀ id s, r.session? id = some s → s.tx.closedBy = none → s.Recalls r₀ (d.told id)

namespace Diary.Tells

open Session

variable {d d' : Diary C} {r₀ r : Repository C} {id : TxId} {s s' : Session C}

theorem storage_eq_current (h : d.Tells r₀ r) (hs : r.session? id = some s) (ho : s.tx.closedBy = none) :
    s.storage = r.current := by
  rw [Repository.storage_of_session? hs, (h.session id s hs ho).home, ← h.place, Repository.storage_length]

theorem current_putSession (h : d.Tells r₀ r) (hs : r.session? id = some s) (ho : s.tx.closedBy = none)
    (hhome : s'.tx.home = s.tx.home) : (r.putSession s').current = s'.storage := by
  have hplace : s'.tx.home = r.retired.length := by rw [hhome, (h.session id s hs ho).home, h.place]
  rw [Repository.current_putSession r (Nat.le_of_eq hplace), if_pos hplace]

theorem others (h : d.Tells r₀ r) (hr : r.Sound) (hs : r.session? id = some s) (hadv : Advances s s') {other : TxId}
    (hne : id ≠ other) {t : Session C} (ht : (r.putSession s').session? other = some t) (ho : t.tx.closedBy = none) :
    t.Recalls r₀ (d.told other) := by
  obtain ⟨hsid, -, hshome, -⟩ := hr.session id s hs
  rw [Repository.session?_putSession_of_ne hr (hadv.home ▸ hshome) (by rw [hadv.id, hsid]; exact hne)] at ht
  obtain ⟨u, hu, rfl⟩ := Option.map_eq_some_iff.1 ht
  obtain ⟨huid, -, -, husound⟩ := hr.session other u hu
  rw [tx_following] at ho
  refine (h.session other u hu ho).following husound (t := s) (by rw [hsid, huid]; exact hne) fun he => ?_
  rw [Repository.storage_of_session? hu, ← he, hadv.home, ← Repository.storage_of_session? hs]
  exact hadv.moves

/-- The diary is true after a transaction's move if it explains the current storage and knows the transaction. -/
theorem put (h : d.Tells r₀ r) (hr : r.Sound) (hs : r.session? id = some s) (hadv : Advances s s')
    (hexplains : Explains r₀ d'.writers d'.readers (r.putSession s').current)
    (htold : ∀ other, id ≠ other → d'.told other = d.told other)
    (hself : s'.tx.closedBy = none → s'.Recalls r₀ (d'.told id)) : d'.Tells r₀ (r.putSession s') := by
  refine ⟨(Repository.retired_length_putSession r s').trans h.place, hexplains, fun other t ht ho => ?_⟩
  by_cases hne : id = other
  · subst hne
    rw [Repository.session?_putSession_of_advances hr hs hadv] at ht
    cases ht
    exact hself ho
  · rw [htold other hne]
    exact h.others hr hs hadv hne ht ho

theorem explains_put (h : d.Tells r₀ r) (hr : r.Sound) (hs : r.session? id = some s) (hadv : Advances s s')
    (hclosed : s.tx.closedBy ≠ none → s'.storage = s.storage) (hv : s'.storage.version = s.storage.version) :
    Explains r₀ d.writers d.readers (r.putSession s').current := by
  obtain ⟨-, -, hshome, hsound⟩ := hr.session id s hs
  cases ho : s.tx.closedBy with
  | none =>
    rw [h.current_putSession hs ho hadv.home]
    exact (h.storage_eq_current hs ho ▸ h.explains).moves hsound.storage hadv.moves hv
  | some closing =>
    have hst := hclosed (by rw [ho]; nofun)
    rw [Repository.current_putSession r (hadv.home ▸ hshome)]
    split
    · rename_i he
      rw [hst, Repository.storage_of_session? hs, ← hadv.home, he, Repository.storage_length]
      exact h.explains
    · exact h.explains

theorem of_noteCommit (h : d.Tells r₀ r) (hr₀ : r₀.Sound) (hr : r.Sound) (hs : r.session? id = some s) :
    (d.noteCommit s).Tells r₀ (r.putSession s.commit.2) := by
  obtain ⟨hsid, -, -, hsound⟩ := hr.session id s hs
  have hadv := s.advances_commit
  -- a transaction that is open afterwards was not touched
  have hself : s.commit.2.tx.closedBy = none → s.commit.2.Recalls r₀ (d.told id) := by
    intro ho
    have hsame := commit_of_isOpen ho
    rw [hsame] at ho ⊢
    exact h.session id s hs ho
  have hclosed : s.tx.closedBy ≠ none → s.commit.2.storage = s.storage := fun hc => by rw [(commit_of_closed hc).2]
  have hquiet : (s.commit.1 = .ok () → s.tx.pending = []) →
      Explains r₀ d.writers d.readers (r.putSession s.commit.2).current := fun hnone =>
    h.explains_put hr hs hadv hclosed
      (commit_of_not_publishes hsound (fun ho => (h.session id s hs ho).delayed) hnone)
  unfold Diary.noteCommit
  cases hok : s.commit.1 with
  | error e => exact h.put hr hs hadv (hquiet fun he => by rw [hok] at he; cases he) (fun _ _ => rfl) hself
  | ok u =>
    have ho : s.tx.closedBy = none := by
      by_contra hc
      obtain ⟨e, he⟩ := (commit_of_closed hc).1
      rw [hok] at he
      cases he
    have hrec := h.session id s hs ho
    have hstorage := h.storage_eq_current hs ho
    have hcurrent := h.current_putSession hs ho hadv.home
    rw [← hsid] at hrec
    cases hp : s.tx.pending.isEmpty with
    | true =>
      have hquiet := hquiet fun _ => List.isEmpty_iff.1 hp
      refine h.put hr hs hadv ?_ (fun _ _ => rfl) hself
      rw [hcurrent] at hquiet ⊢
      have hread := (hstorage ▸ h.explains : Explains r₀ d.writers d.readers s.storage).read hr₀ hsound hrec
      exact hread.moves hsound.storage hadv.moves
        (commit_of_not_publishes hsound (fun _ => hrec.delayed) fun _ => List.isEmpty_iff.1 hp)
    | false =>
      refine h.put hr hs hadv ?_ (fun _ _ => rfl) hself
      rw [hcurrent]
      exact (hstorage ▸ h.explains : Explains r₀ d.writers d.readers s.storage).write hr₀ hsound hrec
        (fun he => by rw [he] at hp; cases hp) hok

theorem of_start (h : d.Tells r₀ r) (hr : r.Sound) {options : TxOptions}
    (hp : (Action.start (C := C) options).IsPlain) : (d.note r (.start options)).Tells r₀ (r.start options).2 where
  place := h.place
  explains := h.explains
  session id t ht ho := by
    rw [Repository.session?_start] at ht
    split at ht
    · rename_i he
      cases ht
      rw [← he, Diary.told_note_start]
      exact recalls_begun hr h.place hp
    · rename_i hne
      rw [Diary.told_note_start_of_ne d r options hne]
      exact h.session id t ht ho

theorem of_notes {α : Type} (h : d.Tells r₀ r) (hr : r.Sound) (id : TxId) (f : Session C → Except Error α × Session C)
    (hf : ∀ s, Notes s (f s).2 ∧ (f s).2.tx.core = s.tx.core ∧ ∀ k, (f s).2.tx.cache k = s.tx.cache k) :
    d.Tells r₀ (r.onSession id f).2 := by
  cases hs : r.session? id with
  | none =>
    rw [Repository.snd_onSession_of_none hs]
    exact h
  | some s =>
    rw [Repository.onSession_of_some hs]
    obtain ⟨hn, hcore, hcache⟩ := hf s
    have hexplains := h.explains_put hr hs hn.reads.advances (fun _ => hn.reads.storage) (by rw [hn.reads.storage])
    exact h.put hr hs hn.reads.advances hexplains (fun _ _ => rfl)
      fun ho => (h.session id s hs (hn.reads.closedBy ▸ ho)).notes hn hcore hcache

theorem of_statement (h : d.Tells r₀ r) (hr : r.Sound) (id : TxId) (op : TableOp C) :
    (d.note r (.statement id op)).Tells r₀ (r.onSession id op.run).2 := by
  cases hs : r.session? id with
  | none =>
    rw [Repository.snd_onSession_of_none hs]
    refine ⟨h.place, h.explains, fun other t ht ho => ?_⟩
    have hne : id ≠ other := by
      rintro rfl
      rw [hs] at ht
      cases ht
    rw [Diary.told_note_statement_of_ne d r op hne]
    exact h.session other t ht ho
  | some s =>
    have hstep := Repository.onSession_of_some hs op.run
    have hstays := stays_run op fun ho => (h.session id s hs ho).delayed
    have hexplains :=
      h.explains_put hr hs (s.advances_statement op) (fun _ => hstays.storage) (by rw [hstays.storage])
    rw [hstep]
    refine h.put hr hs (s.advances_statement op) hexplains
      (fun other hne => Diary.told_note_statement_of_ne d r op hne) fun ho => ?_
    rw [hstays.closedBy] at ho
    have hanswer : (r.perform (.statement id op)).1 = (op.run s).1 := congrArg Prod.fst hstep
    rw [Diary.told_note_statement, hanswer]
    refine (h.session id s hs ho).run ?_ op
    rw [h.storage_eq_current hs ho, h.explains.version]
    exact Nat.le_add_right _ _

theorem of_commit (h : d.Tells r₀ r) (hr₀ : r₀.Sound) (hr : r.Sound) (id : TxId) :
    (d.note r (.commit id)).Tells r₀ (r.onSession id Session.commit).2 := by
  cases hs : r.session? id with
  | none =>
    rw [Repository.snd_onSession_of_none hs, Diary.note, hs]
    exact h
  | some s =>
    rw [Repository.onSession_of_some hs, Diary.note, hs]
    exact h.of_noteCommit hr₀ hr hs

theorem of_rollback (h : d.Tells r₀ r) (hr : r.Sound) (id : TxId) :
    d.Tells r₀ (r.onSession id Session.rollback).2 := by
  cases hs : r.session? id with
  | none =>
    rw [Repository.snd_onSession_of_none hs]
    exact h
  | some s =>
    rw [Repository.onSession_of_some hs]
    have hclosed : s.tx.closedBy ≠ none → s.rollback.2.storage = s.storage := fun hc => by
      rw [(s.rollback_spec.of_closed hc).2]
    have hexplains := h.explains_put hr hs s.advances_rollback hclosed s.version_rollback
    refine h.put hr hs s.advances_rollback hexplains (fun _ _ => rfl) fun ho => ?_
    have hsame := rollback_of_isOpen ho
    rw [hsame] at ho ⊢
    exact h.session id s hs ho

theorem of_release (h : d.Tells r₀ r) (hr : r.Sound) (id : TxId) : d.Tells r₀ (r.release id) := by
  unfold Repository.release
  cases hs : r.session? id with
  | none => exact h
  | some s =>
    refine ⟨(Repository.retired_length_putSession r s.release).trans h.place, ?_, fun other t ht ho => ?_⟩
    · refine h.explains_put hr hs s.advances_release (fun hc => ?_) s.version_release
      unfold release
      rw [if_neg (by rwa [Option.isNone_iff_eq_none])]
    · have ht : ((r.putSession s.release).forget id).session? other = some t := ht
      rw [Repository.session?_forget] at ht
      split at ht
      · cases ht
      · rename_i hne
        exact h.others hr hs s.advances_release hne ht ho

/-- **Every action of plain transactions keeps the diary true.** -/
theorem note (h : d.Tells r₀ r) (hr₀ : r₀.Sound) (hr : r.Sound) {a : Action C} (ha : a.IsPlain) :
    (d.note r a).Tells r₀ (r.next a) := by
  cases a with
  | start options => exact h.of_start hr ha
  | openTable id k =>
    exact h.of_notes hr id (fun s => (.ok (), s.openTable k))
      fun s => ⟨.openTable s k, Twins.core_openTable s k, s.cache_openTable k⟩
  | statement id op => exact h.of_statement hr id op
  | record id f =>
    exact h.of_notes hr id (fun s => (.ok (), { s with tx := { s.tx with log := f s.tx.log } }))
      fun s => ⟨⟨.record s f, rfl⟩, rfl, fun _ => rfl⟩
  | commit id => exact h.of_commit hr₀ hr id
  | rollback id => exact h.of_rollback hr id
  | release id => exact h.of_release hr id
  | makeSnapshot sid => exact ⟨h.place, h.explains, h.session⟩
  | loadSnapshot id => cases ha
  | dropSnapshot id =>
    show d.Tells r₀ (r.orSame (r.dropSnapshot id)).2
    unfold Repository.dropSnapshot
    cases r.snapshots.contains id with
    | false => exact h
    | true => exact ⟨h.place, h.explains, h.session⟩

theorem along (hr₀ : r₀.Sound) : ∀ (as : List (Action C)) {d : Diary C} {r : Repository C}, d.Tells r₀ r → r.Sound →
    (∀ a ∈ as, a.IsPlain) → (d.along r as).Tells r₀ (r.after as)
  | [], _, _, h, _, _ => h
  | a :: rest, _, _, h, hr, hplain =>
    along hr₀ rest (h.note hr₀ hr (hplain a List.mem_cons_self)) (Repository.sound_next hr a)
      fun b hb => hplain b (List.mem_cons_of_mem a hb)

theorem empty (hclosed : ∀ id s, r.session? id = some s → s.tx.closedBy ≠ none) : ({} : Diary C).Tells r r where
  place := rfl
  explains := .nil r
  session id s hs ho := absurd ho (hclosed id s hs)

end Diary.Tells

/-! ## Serializability -/

namespace Repository

/-- **Transactions that queue their writes are serializable.**  Whatever they do among each other from a state without
open transactions: run one at a time from that state, in the order of their commits, those that have committed a queue
get the same answers, all commit, and leave the same rows; and each one that has committed without writes gets the same
answers after some first of them. -/
theorem serializable (before as : List (Action C))
    (hclosed : ∀ id s, (({} : Repository C).after before).session? id = some s → s.tx.closedBy ≠ none)
    (hplain : ∀ a ∈ as, a.IsPlain) :
    let r := ({} : Repository C).after before
    let d := ({} : Diary C).along r as
    (r.serially d.writers).1 = d.writers.map (fun j => (j.exchanges, .ok ())) ∧
      (∀ k, (r.serially d.writers).2.committed k = (r.after as).committed k) ∧
      ∀ j ∈ d.readers, ∃ n ≤ d.writers.length,
        ((r.serially (d.writers.take n)).2.alone j.options j.ops).1.1 = j.exchanges := by
  intro r d
  have hr : r.Sound := sound_after sound_empty before
  have htells := Diary.Tells.along hr as (.empty hclosed) hr hplain
  refine ⟨htells.explains.answers, fun k => ?_, htells.explains.readers⟩
  have hversion := htells.explains.versions _ (Nat.le_refl _)
  have hrows := htells.explains.rows _ (Nat.le_refl _)
  rw [List.take_length, ← htells.explains.version] at hversion
  rw [List.take_length, ← htells.explains.version] at hrows
  refine committed_eq (sound_after hr as) (sound_serially _ hr) fun c => ?_
  exact (congrArg (fun v => (r.serially d.writers).2.current.published v k c) hversion).trans (hrows k c)

end Repository

namespace Sample

def numbered (a : Int) (name : String) : Item := ⟨⟨some a, some 0, some "c", some .ok⟩, name⟩

/-- One item is published. -/
def oneItem : List (Action (catalog "sample")) :=
  [.start {}, .statement 1 (.save .item (numbered 1 "first")), .commit 1, .release 1]

/-- Two writers commit in the opposite order of their starts, beside a reader that has started before them. -/
def overlapping : List (Action (catalog "sample")) :=
  [.start {}, .statement 2 (.findAll .item),
    .start {}, .statement 3 (.find .item (numbered 1 "").id),
    .start { cache := false }, .statement 4 (.insert .item (numbered 2 "second")),
    .statement 3 (.save .item (numbered 1 "changed")), .commit 4, .commit 3,
    .statement 2 (.find .item (numbered 1 "").id), .commit 2]

end Sample

open Sample in
theorem Repository.serializable_overlapping :
    let r := ({} : Repository (catalog "sample")).after oneItem
    let d := ({} : Diary (catalog "sample")).along r overlapping
    (d.writers.length = 2 ∧ d.readers.length = 1) ∧
      (r.serially d.writers).1 = d.writers.map (fun j => (j.exchanges, .ok ())) ∧
      (∀ k, (r.serially d.writers).2.committed k = (r.after overlapping).committed k) ∧
      ∀ j ∈ d.readers, ∃ n ≤ d.writers.length,
        ((r.serially (d.writers.take n)).2.alone j.options j.ops).1.1 = j.exchanges := by
  have hnone : ∀ id, (({} : Repository (catalog "sample")).after oneItem).session? id = none := fun _ => rfl
  have hplain : ∀ a ∈ overlapping, a.IsPlain := by
    simp [overlapping, Action.IsPlain, TxOptions.isReadWrite, Isolation.isReadWrite, TxOptions.isScan,
      TxOptions.isImmediate]
  refine ⟨⟨rfl, rfl⟩, serializable oneItem overlapping (fun id s hs => ?_) hplain⟩
  rw [hnone id] at hs
  cases hs

end EntityStore
