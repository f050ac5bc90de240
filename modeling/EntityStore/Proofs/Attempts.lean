import EntityStore.Proofs.Commits
import EntityStore.Proofs.Steps
import EntityStore.Tx.Shared
/-!
# What an attempt does to the store

`Shared.Conduct tx` is what the code of an attempt with the transaction `tx` may do to the store: anything that uses
at most the tables and the log of that transaction.  `Shared.attempt_spec` adds the one commit or rollback that an
attempt ends in: it commits its transaction exactly if it succeeds and is no dry run.
-/
namespace EntityStore

variable {X : Scalars} {κ : Type} [DecidableEq κ] {C : κ → EntityType X} {V α : Type}

/-! ## The store that fails on demand -/

namespace FaultyRepository

/-- **A commit is passed on, or fails and rolls back.** -/
theorem commit_cases (st : FaultyRepository C) (tx : TxId) :
    ((st.commit tx).1 = (st.inner.commit tx).1 ∧ (st.commit tx).2.inner = st.inner.next (.commit tx)) ∨
    ((∃ e, (st.commit tx).1 = .error e) ∧ (st.commit tx).2.inner = st.inner.next (.rollback tx)) := by
  unfold commit
  dsimp only
  split
  · exact .inr ⟨⟨_, rfl⟩, rfl⟩
  · exact .inl ⟨rfl, rfl⟩

theorem inner_rollback (st : FaultyRepository C) (tx : TxId) :
    (st.rollback tx).2.inner = st.inner.next (.rollback tx) := by
  show _ = (st.inner.rollback tx).2
  unfold rollback
  dsimp only
  generalize st.inner.rollback tx = r
  obtain ⟨result, inner⟩ := r
  cases result with
  | error e => rfl
  | ok u =>
    dsimp only
    split <;> rfl

end FaultyRepository

/-- Whether a result stands for a commit. -/
def TxOptions.publishes (o : TxOptions) (result : Except Error α) : Bool := result.toOption.isSome && !o.dryRun

theorem TxOptions.eq_of_publishes {o : TxOptions} {a b : Except Error α} (ha : o.publishes a = true)
    (h : b.toOption = a.toOption) : b = a := by
  cases a with
  | error e => cases ha
  | ok a =>
    cases b with
    | error e => cases h
    | ok b => cases h; rfl

namespace Shared

/-! ## The end of an attempt -/

theorem inner_rollbackAfter (tx : TxId) (e : Error) (s : Shared C V) :
    ((handle tx).rollbackAfter e s).2.store.inner = s.store.inner.next (.rollback tx) := by
  have h : ((handle tx).rollback ((handle tx).reportLog s!"Rollback due to {e.message}" "! " s)).2.store.inner =
    s.store.inner.next (.rollback tx) := s.store.inner_rollback tx
  unfold TxHandle.rollbackAfter
  generalize (handle tx).rollback ((handle tx).reportLog s!"Rollback due to {e.message}" "! " s) = r at h
  obtain ⟨result, s'⟩ := r
  cases result with
  | error failure =>
    dsimp only
    split <;> exact h
  | ok u => exact h

theorem inner_rollbackDryRun (tx : TxId) (s : Shared C V) :
    ((handle tx).rollbackDryRun s).2.store.inner = s.store.inner.next (.rollback tx) := by
  have h : ((handle tx).rollback s).2.store.inner = s.store.inner.next (.rollback tx) := s.store.inner_rollback tx
  unfold TxHandle.rollbackDryRun
  generalize (handle tx).rollback s = r at h
  obtain ⟨result, s'⟩ := r
  cases result with
  | error failure =>
    dsimp only
    split <;> exact h
  | ok u => exact h

theorem commitNow_cases (tx : TxId) (logOnSuccess : Bool) (s : Shared C V) :
    (((handle tx).commitNow logOnSuccess s).1 = (s.store.inner.commit tx).1 ∧
      ((handle tx).commitNow logOnSuccess s).2.store.inner = s.store.inner.next (.commit tx)) ∨
    ((∃ e, ((handle tx).commitNow logOnSuccess s).1 = .error e) ∧
      ((handle tx).commitNow logOnSuccess s).2.store.inner = s.store.inner.next (.rollback tx)) := by
  have h : (handle tx).commit s = ((s.store.commit tx).1, { s with store := (s.store.commit tx).2 }) := rfl
  have hcases := s.store.commit_cases tx
  unfold TxHandle.commitNow
  rw [h]
  cases hanswer : (s.store.commit tx).1 with
  | error e =>
    rw [hanswer] at hcases
    exact hcases
  | ok u =>
    rw [hanswer] at hcases
    dsimp only
    split <;> exact hcases

/-! ## Code that leaves the end to its attempt -/

/-- Of the transaction `tx`, once it was started, at most the tables and the log are used. -/
def Conduct (tx : TxId) (s s' : Shared C V) : Prop :=
  s.store.inner.Sound → tx ≤ s.store.inner.lastTx →
    ∃ as : List (Action C), s'.store.inner = s.store.inner.after as ∧ ∀ a ∈ as, a.Respects tx

theorem conduct_of_inner_eq (tx : TxId) {s s' : Shared C V} (h : s'.store.inner = s.store.inner) : Conduct tx s s' :=
  fun _ _ => ⟨[], h, fun _ ha => (List.not_mem_nil ha).elim⟩

theorem isPath_conduct (tx : TxId) : IsPath (Conduct (C := C) (V := V) tx) where
  refl s := conduct_of_inner_eq tx rfl
  trans {a b c} hab hbc hs htx := by
    obtain ⟨as, has, hasr⟩ := hab hs htx
    obtain ⟨bs, hbs, hbsr⟩ := hbc (has ▸ Repository.sound_after hs as)
      (has ▸ Nat.le_trans htx (Repository.lastTx_after ..))
    refine ⟨as ++ bs, ?_, fun x hx => (List.mem_append.1 hx).elim (hasr x) (hbsr x)⟩
    rw [hbs, has, Repository.after_append]

/-- **What an attempt does to the repository.**  After what its code does, it commits its transaction once if it is a
success and no dry run, and else it never does. -/
theorem attempt_spec {tx : TxId} (o : TxOptions) {body : Step α (Shared C V)} (hbody : body.Along (Conduct tx))
    {s : Shared C V} (hs : s.store.inner.Sound) (htx : tx ≤ s.store.inner.lastTx) :
    let e := (handle tx).attempt o body s
    (∀ f ∈ e.atEnd, ∀ s, Conduct tx s (f s)) ∧
    ∃ (as : List (Action C)) (c? : Option Commit), e.state.store.inner = s.store.inner.after as ∧
      s.store.inner.commitsOf [tx] as = c?.toList ∧ c?.isSome = o.publishes e.result := by
  have hpath := isPath_conduct (C := C) (V := V) tx
  obtain ⟨hran, hlater⟩ := (hbody s).runAll hpath
  obtain ⟨as, has, hrespects⟩ := hran hs htx
  have hquiet := Repository.commitsOf_of_respects (r := s.store.inner) hrespects
  have hcases := (handle tx).attempt_cases o body s
  dsimp only at hcases ⊢
  generalize body.runAll s = ran at hlater has hcases
  have hnext : ∀ a, ran.state.store.inner.next a = s.store.inner.after (as ++ [a]) :=
    fun a => by rw [has, Repository.after_concat]
  -- an end that commits nothing
  have hrolled : s.store.inner.commitsOf [tx] (as ++ [.rollback tx]) = [] :=
    Repository.commitsOf_concat_eq_nil hquiet rfl
  rcases hcases with ⟨err, -, he⟩ | ⟨a, -, hd, he⟩ | ⟨err, hd, hc, he⟩ | ⟨a, hd, hc, he⟩
  · rw [he]
    exact ⟨hlater.atEnd, _, none, (inner_rollbackAfter tx err ran.state).trans (hnext _), hrolled, rfl⟩
  · rw [he]
    refine ⟨hlater.atEnd, _, none, (inner_rollbackDryRun tx ran.state).trans (hnext _), hrolled, ?_⟩
    simp [TxOptions.publishes, hd]
  · rw [he]
    rcases commitNow_cases tx o.logOnSuccess ran.state with ⟨hanswer, hinner⟩ | ⟨-, hinner⟩
    · rw [hc, has] at hanswer
      have hnone := Repository.commitsOf_concat_eq_nil hquiet (Repository.commit?_of_error hanswer.symm)
      exact ⟨hlater.atEnd, _, none, hinner.trans (hnext _), hnone, rfl⟩
    · exact ⟨hlater.atEnd, _, none, hinner.trans (hnext _), hrolled, rfl⟩
  · rw [he]
    rcases commitNow_cases tx o.logOnSuccess ran.state with ⟨hanswer, hinner⟩ | ⟨⟨e, hfailed⟩, -⟩
    · rw [hc, has] at hanswer
      obtain ⟨c, hcommit, rfl⟩ := Repository.commit?_of_ok hanswer.symm
      rw [hnext] at hinner
      -- the callbacks after the commit do not commit again
      obtain ⟨bs, hbs, hbsr⟩ := TxHandle.along_runCallbacks hpath hlater.afterCommit
        ((handle c.tx).commitNow o.logOnSuccess ran.state).2 (by rw [hinner]; exact Repository.sound_after hs _)
        (by rw [hinner]; exact Nat.le_trans htx (Repository.lastTx_after ..))
      refine ⟨hlater.atEnd, as ++ [.commit c.tx] ++ bs, some c, ?_, ?_, by simp [TxOptions.publishes, hd]; rfl⟩
      · rw [Repository.after_append, ← hinner]
        exact hbs
      · rw [Repository.commitsOf_append, Repository.commitsOf_of_respects hbsr, List.append_nil,
          Repository.commitsOf_concat, hquiet, hcommit]
        simp
    · rw [hc] at hfailed
      cases hfailed

end Shared

end EntityStore
