import EntityStore.Proofs.Calls
import EntityStore.Tx.Program
/-!
# What programs do to the store

Everything that a program does to a repository is a list of actions.  `Program.along_denote` says of which: a program
that neither commits nor rolls back its own transaction (`Program.LeavesEnd`) uses nothing of that transaction but the
tables and the log, whatever calls it makes besides, and a program that runs in another transaction uses nothing of it.
-/
namespace EntityStore

variable {X : Scalars} {κ : Type} [DecidableEq κ] {C : κ → EntityType X} {V α : Type}

/-! ## Code on tables, as actions -/

theorem Work.advances_run (w : Work C α) (s : Session C) : Session.Advances s (w.run s).2 := by
  induction w generalizing s with
  | done result => exact .refl s
  | opened k next ih => exact (Session.Reads.openTable s k).advances.trans (ih (s.openTable k))
  | statement op next ih => exact (s.advances_statement op).trans (ih (op.run s).1 (op.run s).2)

namespace Repository

omit [DecidableEq κ] in
theorem putSession_putSession (r : Repository C) {s s' : Session C} (hid : s'.tx.id = s.tx.id)
    (hhome : s'.tx.home = s.tx.home) : (r.putSession s).putSession s' = r.putSession s' := by
  unfold putSession setStorage
  rw [hid, hhome]
  by_cases hl : s.tx.home < r.retired.length
  · simp [hl, Dict.insert_insert]
  · simp [hl, Dict.insert_insert]

theorem exists_after_run (w : Work C α) {r : Repository C} (h : r.Sound) {id : TxId} {s : Session C}
    (hs : r.session? id = some s) :
    ∃ as : List (Action C), r.putSession (w.run s).2 = r.after as ∧ ∀ a ∈ as, a.UsesTables := by
  induction w generalizing r s with
  | done result => exact ⟨[], putSession_of_session? hs (h.session id s hs).1, fun a ha => (List.not_mem_nil ha).elim⟩
  | opened k next ih =>
    have hadv := (Session.Reads.openTable s k).advances
    have hnext : r.next (.openTable id k) = r.putSession (s.openTable k) := congrArg Prod.snd (onSession_of_some hs _)
    have hsound : (r.putSession (s.openTable k)).Sound := hnext ▸ sound_next h (.openTable id k)
    obtain ⟨as, has, htables⟩ := ih hsound (session?_putSession_of_advances h hs hadv)
    have hrest := next.advances_run (s.openTable k)
    rw [putSession_putSession r hrest.id hrest.home, ← hnext] at has
    exact ⟨.openTable id k :: as, has, List.forall_mem_cons.2 ⟨trivial, htables⟩⟩
  | statement op next ih =>
    have hadv := s.advances_statement op
    have hnext : r.next (.statement id op) = r.putSession (op.run s).2 :=
      congrArg Prod.snd (onSession_of_some hs op.run)
    have hsound : (r.putSession (op.run s).2).Sound := hnext ▸ sound_next h (.statement id op)
    obtain ⟨as, has, htables⟩ := ih (op.run s).1 hsound (session?_putSession_of_advances h hs hadv)
    have hrest := (next (op.run s).1).advances_run (op.run s).2
    rw [putSession_putSession r hrest.id hrest.home, ← hnext] at has
    exact ⟨.statement id op :: as, has, List.forall_mem_cons.2 ⟨trivial, htables⟩⟩

theorem exists_after_work (w : Work C α) {r : Repository C} (h : r.Sound) (id : TxId) :
    ∃ as : List (Action C), (r.work id w).2 = r.after as ∧ ∀ a ∈ as, a.UsesTables := by
  unfold work
  cases hs : r.session? id with
  | none => exact ⟨[], snd_onSession_of_none hs _, fun a ha => (List.not_mem_nil ha).elim⟩
  | some s =>
    rw [onSession_of_some hs]
    exact exists_after_run w h hs

end Repository

omit [DecidableEq κ] in
theorem Action.UsesTables.respects {a : Action C} (h : a.UsesTables) (tx : TxId) : a.Respects tx := fun _ => h

omit [DecidableEq κ] in
theorem Action.respects_of_ne {a : Action C} {id tx : TxId} (ha : a.actor? = some id) (hne : id ≠ tx) : a.Respects tx :=
  fun h => absurd (Option.some.inj (ha.symm.trans h)) hne

namespace Repository

/-- A transaction that begins and ends beside another one is a list of actions that use nothing of that. -/
theorem exists_after_aside (w : Work C α) {r : Repository C} (h : r.Sound) {tx : TxId} (htx : tx ≤ r.lastTx) :
    ∃ as : List (Action C), (r.aside w).2 = r.after as ∧ ∀ a ∈ as, a.Respects tx := by
  have hne : r.lastTx + 1 ≠ tx := Nat.ne_of_gt (Nat.lt_succ_of_le htx)
  obtain ⟨as, has, htables⟩ := exists_after_work w (sound_start h {}) (r.lastTx + 1)
  have hrespects : ∀ a ∈ (.start {} : Action C) :: as, a.Respects tx := by
    refine List.forall_mem_cons.2 ⟨nofun, fun a ha => (htables a ha).respects tx⟩
  have hrun : ((r.start {}).2.work (r.lastTx + 1) w).2 = r.after (.start {} :: as) := has
  have hend : ∀ a ∈ ([.commit (r.lastTx + 1), .release (r.lastTx + 1)] : List (Action C)), a.Respects tx := by
    intro a ha
    rcases List.mem_pair.1 ha with rfl | rfl
    · exact Action.respects_of_ne rfl hne
    · exact Action.respects_of_ne rfl hne
  have hstart : r.start {} = (r.lastTx + 1, (r.start {}).2) := rfl
  unfold aside
  rw [hstart]
  dsimp only
  generalize (r.start {}).2.work (r.lastTx + 1) w = answer at hrun
  obtain ⟨result, r'⟩ := answer
  dsimp only at hrun
  subst hrun
  cases result with
  | error e =>
    refine ⟨(.start {} :: as) ++ [.release (r.lastTx + 1)], ?_, List.forall_mem_append.2 ⟨hrespects, ?_⟩⟩
    · rw [after_append]
      rfl
    · exact fun a ha => hend a (List.mem_cons_of_mem _ ha)
  | ok a =>
    refine ⟨(.start {} :: as) ++ [.commit (r.lastTx + 1), .release (r.lastTx + 1)], ?_,
      List.forall_mem_append.2 ⟨hrespects, hend⟩⟩
    rw [after_append]
    rfl

end Repository

/-! ## Calls beside a transaction -/

namespace Shared

theorem conduct_of_next {tx : TxId} {s s' : Shared C V} (a : Action C) (h : s'.store.inner = s.store.inner.next a)
    (ha : a.Respects tx) : Conduct tx s s' := fun _ _ => ⟨[a], h, fun _ hb => List.mem_singleton.1 hb ▸ ha⟩

theorem along_handle {tx other : TxId} (hne : other ≠ tx) : (handle (C := C) (V := V) other).Along (Conduct tx) where
  commit s := by
    rcases s.store.commit_cases other with ⟨-, h⟩ | ⟨-, h⟩
    · exact conduct_of_next (.commit other) h (Action.respects_of_ne rfl hne)
    · exact conduct_of_next (.rollback other) h (Action.respects_of_ne rfl hne)
  rollback s := conduct_of_next (.rollback other) (s.store.inner_rollback other) (Action.respects_of_ne rfl hne)
  report _ _ _ := conduct_of_inner_eq tx rfl

theorem conduct_work (tx id : TxId) (w : Work C α) (s : Shared C V) :
    Conduct tx s (s.onStore (fun store => store.work id w)).2 := by
  intro hs _
  obtain ⟨as, has, htables⟩ := Repository.exists_after_work w hs id
  exact ⟨as, has, fun a ha => (htables a ha).respects tx⟩

theorem conduct_aside (tx : TxId) (w : Work C α) (s : Shared C V) :
    Conduct tx s (s.onStore (fun store => store.aside w)).2 :=
  fun hs htx => Repository.exists_after_aside w hs htx

end Shared

namespace Call

/-- What a call has left of its last transaction is not of the transaction `tx`, and uses nothing of it. -/
def Strange (tx : TxId) (c : Call C V) : Prop :=
  ∀ id callbacks, c.opened = some (id, callbacks) → id ≠ tx ∧ ∀ f ∈ callbacks, ∀ s, Shared.Conduct tx s (f s)

/-- A call that is beside the transaction `tx` goes on so, and uses nothing of it. -/
def Conduct (tx : TxId) (c c' : Call C V) : Prop :=
  c.shared.store.inner.Sound → tx ≤ c.shared.store.inner.lastTx → c.Strange tx →
    c'.Strange tx ∧ Shared.Conduct tx c.shared c'.shared

theorem isPath_conduct (tx : TxId) : IsPath (Conduct (C := C) (V := V) tx) where
  refl _ _ _ hc := ⟨hc, (Shared.isPath_conduct tx).refl _⟩
  trans {a b c} hab hbc hs htx ha := by
    obtain ⟨hb, hstep⟩ := hab hs htx ha
    obtain ⟨as, has, -⟩ := hstep hs htx
    obtain ⟨hc, hrest⟩ := hbc (has ▸ Repository.sound_after hs as)
      (has ▸ Nat.le_trans htx (Repository.lastTx_after ..)) hb
    exact ⟨hc, (Shared.isPath_conduct tx).trans hstep hrest⟩

theorem Beside.conduct {c c' : Call C V} (h : Beside c c') (tx : TxId) : Conduct tx c c' :=
  fun _ _ hc => ⟨fun id callbacks ho => hc id callbacks (h.opened ▸ ho),
    Shared.conduct_of_inner_eq tx (congrArg FaultyRepository.inner h.store)⟩

theorem respects_releases {tx : TxId} {c : Call C V} (hc : c.Strange tx) : ∀ a ∈ c.releases, a.Respects tx := by
  intro a ha
  obtain ⟨o, ho, rfl⟩ := List.mem_map.1 ha
  exact Action.respects_of_ne rfl (hc o.1 o.2 (Option.mem_toList.1 ho)).1

theorem conduct_attempt {tx : TxId} {body : Body C V α}
    (hbody : ∀ n a, a.tx ≠ tx → (body n a).Along (Shared.Conduct tx)) (m : Manager) (name : TxName) (c : Call C V) :
    Conduct tx c (c.attempt m name body).2 := by
  intro hs htx hc
  rcases attempt_cases m name body c with ⟨-, -, hinner, hopened⟩ | ⟨new, n, s, hnew, hinner, -, -, hstore, hopened⟩
  · exact ⟨fun id callbacks ho => hc id callbacks (hopened ▸ ho), Shared.conduct_of_inner_eq tx hinner⟩
  · have hne : new ≠ tx := hnew ▸ Nat.ne_of_gt (Nat.lt_succ_of_le htx)
    obtain ⟨hrun, hatEnd⟩ := TxHandle.along_attempt (Shared.isPath_conduct tx) (Shared.along_handle hne) m.options
      (hbody n { tx := new, name } hne s)
    have hopening : Shared.Conduct tx c.shared s :=
      fun _ _ => ⟨.start m.options :: c.releases, hinner, List.forall_mem_cons.2 ⟨nofun, respects_releases hc⟩⟩
    refine ⟨fun id callbacks ho => ?_, ?_⟩
    · rw [hopened] at ho
      cases ho
      exact ⟨hne, hatEnd⟩
    · have hboth := (Shared.isPath_conduct tx).trans hopening hrun
      unfold Shared.Conduct at hboth ⊢
      rw [hstore]
      exact hboth

theorem conduct_finish {tx : TxId} {c : Call C V} (hc : c.Strange tx) : Shared.Conduct tx c.shared c.finish := by
  intro hs htx
  have hcallbacks : ∀ f ∈ (c.opened.map Prod.snd).getD [], ∀ s, Shared.Conduct tx s (f s) := by
    cases ho : c.opened with
    | none => exact fun f hf => (List.not_mem_nil hf).elim
    | some o => exact (hc o.1 o.2 ho).2
  obtain ⟨as, has, hrespects⟩ :=
    TxHandle.along_runCallbacks (Shared.isPath_conduct tx) hcallbacks c.shared hs htx
  refine ⟨as ++ c.releases, ?_, List.forall_mem_append.2 ⟨hrespects, respects_releases hc⟩⟩
  rw [Repository.after_append, ← has]
  exact inner_releaseOpened (c.mapShared (TxHandle.runCallbacks ((c.opened.map Prod.snd).getD [])))

end Call

/-- **A call uses nothing of a transaction if its code, in other transactions, does not.** -/
theorem Manager.conduct_tx {tx : TxId} {body : Body C V α}
    (hbody : ∀ n a, a.tx ≠ tx → (body n a).Along (Shared.Conduct tx)) (m : Manager) (site : CallSite) (s : Shared C V) :
    Shared.Conduct tx s (m.tx site body s).2 := by
  cases h : m.admit? site s with
  | none =>
    rw [tx_of_admit?_eq_none h body]
    exact (Shared.isPath_conduct tx).refl s
  | some s' =>
    obtain ⟨htx, hstore⟩ := tx_of_admit?_eq_some h body
    rw [htx, call_eq]
    intro hs hle
    rw [← hstore] at hs hle ⊢
    rw [inner_reported]
    have hstrange : (m.begin site s').Strange tx := by
      intro id callbacks ho
      cases ho
    obtain ⟨hc, hloop⟩ := RetryHooks.along_loop (Call.isPath_conduct tx)
      ((Call.along_hooks m (m.nameAt site) body).mono fun h => h.conduct tx)
      (fun c => (Call.isPath_conduct tx).trans (Call.conduct_attempt hbody m (m.nameAt site) c)
        (Call.Beside.conduct ⟨rfl, rfl⟩ tx))
      m.options m.retries 1 (m.begin site s') hs hle hstrange
    exact (Shared.isPath_conduct tx).trans hloop (Call.conduct_finish hc) hs hle

/-! ## Programs -/

namespace Outcome

variable {σ : Type} {R : σ → σ → Prop} {s : σ} {o : Outcome α σ (Rounds σ)}

theorem Along.dropValue (h : o.Along R s) : o.dropValue.Along R s := ⟨h.state, h.later, h.rounds⟩

theorem Along.beforeCommit (hR : IsPath R) (h : o.Along R s) {callback : Step Unit σ} (hc : callback.Along R) :
    (o.beforeCommit callback).Along R s := ⟨h.state, h.later, (Rounds.along_round hc).append hR h.rounds⟩

theorem Along.afterCommit (h : o.Along R s) {callback : σ → σ} (hc : ∀ s, R s (callback s)) :
    (o.afterCommit callback).Along R s :=
  ⟨h.state, ⟨List.forall_mem_cons.2 ⟨hc, h.later.afterCommit⟩, h.later.atEnd⟩, h.rounds⟩

theorem Along.atEnd (h : o.Along R s) {callback : σ → σ} (hc : ∀ s, R s (callback s)) :
    (o.atEnd callback).Along R s :=
  ⟨h.state, ⟨h.later.afterCommit, List.forall_mem_cons.2 ⟨hc, h.later.atEnd⟩⟩, h.rounds⟩

end Outcome

/-- The transaction that a program runs in, if it does. -/
def Scope.Context.tx? : {p : Scope} → p.Context → Option TxId
  | .attempt, a => some a.tx
  | .outside, _ => none

namespace Program

/-- The program and its callbacks before the commit neither commit nor roll back the transaction that they run in. -/
def LeavesEnd {p : Scope} : Program C V p → Prop
  | .finish _ => True
  | .note _ next | .cancel _ next | .queueFaults _ next | .record _ _ next => next.LeavesEnd
  | .askActive next => ∀ active, (next active).LeavesEnd
  | .call _ _ _ next | .aside _ next | .work _ next => ∀ result, (next result).LeavesEnd
  | .inspect next => ∀ view, (next view).LeavesEnd
  | .commit _ | .rollback _ => False
  | .beforeCommit callback next => callback.LeavesEnd ∧ next.LeavesEnd
  | .afterCommit _ next | .atEnd _ next => next.LeavesEnd

/-- **A program uses nothing of other transactions, and of its own, if it leaves its end, the tables and the log.** -/
theorem along_denote {tx : TxId} {p : Scope} (q : Program C V p) (c : p.Context) (hq : c.tx? = some tx → q.LeavesEnd) :
    (q.denote c).Along (Shared.Conduct tx) := by
  have hR := Shared.isPath_conduct (C := C) (V := V) tx
  -- a step that does not touch the store
  have hbeside : ∀ {s s' : Shared C V}, s'.store.inner = s.store.inner → Shared.Conduct tx s s' :=
    fun h => Shared.conduct_of_inner_eq tx h
  induction q with
  | finish result => exact fun s => Outcome.along_done (hR.refl s) result
  | note v next ih => exact fun s => (ih c hq _).after hR (hbeside rfl)
  | askActive next ih => exact fun s => ih s.inTransaction c (fun h => hq h s.inTransaction) s
  | cancel token next ih => exact fun s => (ih c hq _).after hR (hbeside rfl)
  | queueFaults faults next ih => exact fun s => (ih c hq _).after hR (hbeside rfl)
  | call m site body next ihbody ih =>
    intro s
    have hbody : ∀ n (a : Attempt), a.tx ≠ tx → ((body n).denote a).Along (Shared.Conduct tx) :=
      fun n a hne => ihbody n a fun h => absurd (Option.some.inj h) hne
    exact (ih _ c (fun h => hq h _) _).after hR (m.conduct_tx hbody site s)
  | aside w next ih => exact fun s => (ih _ c (fun h => hq h _) _).after hR (Shared.conduct_aside tx w s)
  | work w next ih => exact fun s => (ih _ c (fun h => hq h _) _).after hR (Shared.conduct_work tx c.tx w s)
  | inspect next ih => exact fun s => ih (view c s) c (fun h => hq h (view c s)) s
  | record level message next ih =>
    intro s
    exact (ih c hq _).after hR (Shared.conduct_of_next (.record c.tx (recorded level message)) rfl fun _ => trivial)
  | commit next ih =>
    intro s
    have hne : c.tx ≠ tx := fun h => hq (congrArg some h)
    exact (ih _ c (fun h => absurd (Option.some.inj h) hne) _).after hR ((Shared.along_handle hne).commit s)
  | rollback next ih =>
    intro s
    have hne : c.tx ≠ tx := fun h => hq (congrArg some h)
    exact (ih _ c (fun h => absurd (Option.some.inj h) hne) _).after hR ((Shared.along_handle hne).rollback s)
  | beforeCommit callback next ihc ih =>
    intro s
    exact (ih c (fun h => (hq h).2) s).beforeCommit hR fun s => (ihc c (fun h => (hq h).1) s).dropValue
  | afterCommit callback next ihc ih => exact fun s => (ih c hq s).afterCommit fun s => (ihc () nofun s).state
  | atEnd callback next ihc ih => exact fun s => (ih c hq s).atEnd fun s => (ihc () nofun s).state

/-- **The code of a transaction that neither commits nor rolls it back leaves the end to its attempt.** -/
theorem leavesEnd {body : Nat → Program C V .attempt} (h : ∀ n, (body n).LeavesEnd) :
    Body.LeavesEnd (fun n a => (body n).denote a) := fun n a => (body n).along_denote a fun _ => h n

end Program

end EntityStore
