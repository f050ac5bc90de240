import EntityStore.Proofs.Programs
import EntityStore.Proofs.Retries
/-!
# How the statistics add up

Every attempt is counted once by how it ended, and so is every call.  `TxStats.Owes` keeps the books of a stretch of a
run: all its attempts have been counted, and so many calls that have ended are still to be timed.  The loop of a call
owes one, whichever of its exits it takes (`Call.Books.loop`); the call pays it at its very end, after the callbacks.
Calls inside of an attempt or of a callback owe nothing, so that `Program.balanced_runs` holds of all programs.
-/
namespace EntityStore

variable {X : Scalars}

namespace TxStats

/-- The statistics at a time when no call is in progress. -/
structure Balanced (s : TxStats) : Prop where
  attempts : s.attempts = s.commits + s.rollbacks + s.totalRetries
  attemptsTimed : s.attemptsTimed = s.attempts
  callsTimed : s.callsTimed = s.commits + s.rollbacks + s.fails
  dryRuns : s.dryRuns ≤ s.rollbacks

/-- The attempts that have been counted by how they ended. -/
def settled (s : TxStats) : Nat := s.commits + s.rollbacks + s.totalRetries

/-- The calls that have been counted by how they ended. -/
def concluded (s : TxStats) : Nat := s.commits + s.rollbacks + s.fails

/-- From `s` to `s'` all attempts were counted by how they ended, and all calls were timed but for `owed` of them. -/
structure Owes (owed : Nat) (s s' : TxStats) : Prop where
  attempts : s'.attempts + s.settled = s.attempts + s'.settled
  attemptsTimed : s'.attemptsTimed + s.settled = s.attemptsTimed + s'.settled
  calls : s'.callsTimed + owed + s.concluded = s.callsTimed + s'.concluded
  dryRuns : s'.dryRuns + s.rollbacks ≤ s.dryRuns + s'.rollbacks

theorem Owes.refl (s : TxStats) : Owes 0 s s := ⟨rfl, rfl, rfl, Nat.le_refl _⟩

theorem Owes.trans {m n : Nat} {a b c : TxStats} (h : Owes m a b) (h' : Owes n b c) : Owes (m + n) a c := by
  obtain ⟨h₁, h₂, h₃, h₄⟩ := h
  obtain ⟨h₁', h₂', h₃', h₄'⟩ := h'
  constructor <;> omega

variable {s s' : TxStats}

theorem owes_success (s : TxStats) (dryRun : Bool) :
    Owes 1 s ((if dryRun then recordDryRun else recordCommit) s.recordAttempt) := by
  cases dryRun <;>
    constructor <;> simp [settled, concluded, recordAttempt, recordDryRun, recordCommit, totalRetries] <;> omega

theorem owes_rollback (s : TxStats) : Owes 1 s s.recordAttempt.recordRollback := by
  constructor <;> simp [settled, concluded, recordAttempt, recordRollback, totalRetries] <;> omega

theorem owes_retry (s : TxStats) (reason : String) : Owes 0 s (s.recordAttempt.recordRetry reason) := by
  have hsettled : (s.recordAttempt.recordRetry reason).settled = s.settled + 1 := by
    unfold settled
    rw [totalRetries_recordRetry]
    rfl
  constructor
  · rw [hsettled]
    show s.attempts + 1 + s.settled = _
    omega
  · rw [hsettled]
    show s.attemptsTimed + 1 + s.settled = _
    omega
  · rfl
  · exact Nat.le_refl _

theorem owes_fail (s : TxStats) : Owes 1 s s.recordFail := by
  constructor <;> simp [settled, concluded, recordFail, totalRetries]
  omega

theorem Owes.recordCall {owed : Nat} (h : Owes (owed + 1) s s') : Owes owed s s'.recordCall where
  attempts := h.attempts
  attemptsTimed := h.attemptsTimed
  calls := by
    have hcalls := h.calls
    show s'.callsTimed + 1 + owed + s.concluded = s.callsTimed + s'.concluded
    omega
  dryRuns := h.dryRuns

theorem Balanced.owes (h : s.Balanced) (hs : Owes 0 s s') : s'.Balanced := by
  obtain ⟨h₁, h₂, h₃, h₄⟩ := h
  obtain ⟨h₁', h₂', h₃', h₄'⟩ := hs
  unfold settled at h₁' h₂'
  unfold concluded at h₃'
  constructor <;> omega

theorem balanced_empty : ({} : TxStats).Balanced := ⟨rfl, rfl, rfl, Nat.le_refl _⟩

end TxStats

variable {κ : Type} [DecidableEq κ] {C : κ → EntityType X} {V α : Type}

namespace Shared

/-- Nothing is owed. -/
def Settles (s s' : Shared C V) : Prop := s.stats.Owes 0 s'.stats

omit [DecidableEq κ] in
theorem isPath_settles : IsPath (Settles (C := C) (V := V)) where
  refl s := TxStats.Owes.refl s.stats
  trans h h' := TxStats.Owes.trans h h'

omit [DecidableEq κ] in
theorem settles_of_stats_eq {s s' : Shared C V} (h : s'.stats = s.stats) : Settles s s' :=
  show s.stats.Owes 0 s'.stats from h ▸ TxStats.Owes.refl s.stats

theorem settles_handle (tx : TxId) : (handle (C := C) (V := V) tx).Along Settles where
  commit _ := settles_of_stats_eq rfl
  rollback _ := settles_of_stats_eq rfl
  report _ _ _ := settles_of_stats_eq rfl

end Shared

namespace Call

/-- Since the statistics `s`, a call owes so much, and its callbacks for the end owe nothing. -/
structure Books (s : TxStats) (owed : Nat) (c : Call C V) : Prop where
  stats : s.Owes owed c.shared.stats
  waiting : ∀ f ∈ (c.opened.map Prod.snd).getD [], ∀ s, Shared.Settles s (f s)

variable {s : TxStats} {c : Call C V} {m : Manager} {body : Body C V α}

omit [DecidableEq κ] in
theorem Books.then {owed : Nat} {c' : Call C V} (h : Books s 0 c) (hstats : c.shared.stats.Owes owed c'.shared.stats)
    (hopened : c'.opened = c.opened) : Books s owed c' where
  stats := Nat.zero_add owed ▸ h.stats.trans hstats
  waiting f hf := h.waiting f (hopened ▸ hf)

theorem stats_releaseOpened (c : Call C V) : c.releaseOpened.shared.stats = c.shared.stats := by
  unfold releaseOpened
  cases c.opened <;> rfl

theorem Books.attempt (hbody : ∀ n a, (body n a).Along Shared.Settles) (name : TxName) (h : Books s 0 c) :
    Books s 0 (c.attempt m name body).2 := by
  rw [attempt_eq]
  cases (c.shared.store.start m.options).1 with
  | error e => exact ⟨h.stats, h.waiting⟩
  | ok tx =>
    obtain ⟨hrun, hatEnd⟩ := TxHandle.along_attempt Shared.isPath_settles (Shared.settles_handle tx) m.options
      (hbody (c.bodies + 1) { tx, name } (c.entered m))
    have hentered : (c.entered m).stats = c.shared.stats := stats_releaseOpened _
    unfold Shared.Settles at hrun
    rw [hentered] at hrun
    exact ⟨h.stats.trans hrun, hatEnd⟩

theorem Books.step (hbody : ∀ n a, (body n a).Along Shared.Settles) (name : TxName) (left n : Nat)
    (h : Books s 0 c) :
    Books s 1 ((hooks m name body).loop m.options left n c).2 ∨
    ∃ left' c', left = left' + 1 ∧ Books s 0 c' ∧
      (hooks m name body).loop m.options left n c = (hooks m name body).loop m.options left' (n + 1) c' := by
  have hattempt := h.attempt (m := m) hbody name
  -- of the state after an attempt only the count of it is new
  have hcounted : ∀ {result : Except Error α} {flag : Bool} {c₁ : Call C V},
      (hooks m name body).attempt c = ((result, flag), c₁) →
        c₁ = (c.attempt m name body).2.mapShared (fun s => s.mapStats TxStats.recordAttempt) :=
    fun hmade => (congrArg Prod.snd hmade).symm
  have hretried : ∀ {e : Error} {c₁ : Call C V},
      c₁ = (c.attempt m name body).2.mapShared (fun s => s.mapStats TxStats.recordAttempt) →
        Books s 0 ((hooks m name body).failed n .again e c₁) := by
    rintro e c₁ rfl
    exact hattempt.then (TxStats.owes_retry _ e.reason) rfl
  have hslept : ∀ {delay : Float → Duration} {answer : Except Error Unit} {c₂ c₃ : Call C V}, Books s 0 c₂ →
      (hooks m name body).sleep delay c₂ = (answer, c₃) → Books s 0 c₃ := by
    intro delay answer c₂ c₃ h hsleep
    have hbooks : Books s 0 ((hooks m name body).sleep delay c₂).2 := h.then (TxStats.Owes.refl _) rfl
    rwa [hsleep] at hbooks
  cases (hooks m name body).round m.options left n c with
  | succeeded hmade hloop =>
    cases hcounted hmade
    rw [hloop]
    exact .inl (hattempt.then (TxStats.owes_success _ m.options.dryRun) rfl)
  | fatal hmade _ hloop =>
    cases hcounted hmade
    rw [hloop]
    exact .inl (hattempt.then (TxStats.owes_rollback _) rfl)
  | refused hmade _ hloop =>
    cases hcounted hmade
    rw [hloop]
    exact .inl (hattempt.then (TxStats.owes_rollback _) rfl)
  | exhausted hmade _ _ hloop =>
    rw [hloop]
    exact .inl ((hretried (hcounted hmade)).then (TxStats.owes_fail _) rfl)
  | interrupted hmade _ _ hsleep hloop =>
    rw [hloop]
    exact .inl ((hslept (hretried (hcounted hmade)) hsleep).then (TxStats.owes_fail _) rfl)
  | continues hmade _ hleft hsleep hloop =>
    exact .inr ⟨_, _, hleft, hslept (hretried (hcounted hmade)) hsleep, hloop⟩

/-- **The loop of a call owes one call**, whatever becomes of its attempts. -/
theorem Books.loop (hbody : ∀ n a, (body n a).Along Shared.Settles) (name : TxName) (left n : Nat)
    (h : Books s 0 c) : Books s 1 ((hooks m name body).loop m.options left n c).2 := by
  induction left using Nat.strongRecOn generalizing n c with
  | _ left ih =>
  rcases h.step hbody name left n with hends | ⟨left', c', rfl, hc', hloop⟩
  · exact hends
  · rw [hloop]
    exact ih left' (Nat.lt_succ_self left') (n + 1) hc'

theorem Books.finish {owed : Nat} (h : Books s owed c) : s.Owes owed c.finish.stats := by
  have hcallbacks := TxHandle.along_runCallbacks Shared.isPath_settles h.waiting c.shared
  unfold Call.finish
  dsimp only
  rw [stats_releaseOpened]
  exact h.stats.trans hcallbacks

end Call

/-- **A call settles what it owes**, if its code and its callbacks do. -/
theorem Manager.settles_tx {body : Body C V α} (hbody : ∀ n a, (body n a).Along Shared.Settles) (m : Manager)
    (site : CallSite) (s : Shared C V) : Shared.Settles s (m.tx site body s).2 := by
  have hcall : ∀ s' : Shared C V, s'.stats = s.stats → Shared.Settles s (m.call (m.nameAt site) body s').2 := by
    intro s' hs'
    have hbegin : Call.Books s.stats 0 (m.begin site s') := ⟨Shared.settles_of_stats_eq hs', nofun⟩
    exact (hbegin.loop hbody (m.nameAt site) m.retries 1).finish.recordCall
  unfold tx
  dsimp only
  split
  · split
    · exact hcall s rfl
    · exact hcall _ rfl
    · exact Shared.isPath_settles.refl s
  · exact hcall s rfl

namespace Program

/-- Programs settle what their calls owe, and so do the callbacks that they register. -/
theorem settles_denote {p : Scope} (q : Program C V p) (c : p.Context) : (q.denote c).Along Shared.Settles := by
  have hR := Shared.isPath_settles (C := C) (V := V)
  have hstill : ∀ {s s' : Shared C V}, s'.stats = s.stats → Shared.Settles s s' := Shared.settles_of_stats_eq
  induction q with
  | finish result => exact fun s => Outcome.along_done (hR.refl s) result
  | note v next ih => exact fun s => (ih c _).after hR (hstill rfl)
  | askActive next ih => exact fun s => ih s.inTransaction c s
  | cancel token next ih => exact fun s => (ih c _).after hR (hstill rfl)
  | queueFaults faults next ih => exact fun s => (ih c _).after hR (hstill rfl)
  | call m site body next ihbody ih =>
    exact fun s => (ih _ c _).after hR (m.settles_tx (fun n a => ihbody n a) site s)
  | aside w next ih => exact fun s => (ih _ c _).after hR (hstill rfl)
  | work w next ih => exact fun s => (ih _ c _).after hR (hstill rfl)
  | inspect next ih => exact fun s => ih (view c s) c s
  | record level message next ih => exact fun s => (ih c _).after hR (hstill rfl)
  | commit next ih => exact fun s => (ih _ c _).after hR (hstill rfl)
  | rollback next ih => exact fun s => (ih _ c _).after hR (hstill rfl)
  | beforeCommit callback next ihc ih => exact fun s => (ih c s).beforeCommit hR fun s => (ihc c s).dropValue
  | afterCommit callback next ihc ih => exact fun s => (ih c s).afterCommit fun s => (ihc () s).state
  | atEnd callback next ihc ih => exact fun s => (ih c s).atEnd fun s => (ihc () s).state

theorem settles_run (q : Program C V .outside) (s : Shared C V) : Shared.Settles s (q.run s).2 :=
  (q.settles_denote () s).state

/-- **The statistics add up after each program of a sequence.**  The programs make calls of any managers, to any depth,
in the code of transactions, beside them and in callbacks. -/
theorem balanced_runs (qs : List (Program C V .outside)) (s : Shared C V) :
    (qs.foldl (fun s q => (run q s).2) { s with stats := {} }).stats.Balanced := by
  generalize hs : ({ s with stats := {} } : Shared C V) = s₀
  have h : s₀.stats.Balanced := hs ▸ TxStats.balanced_empty
  clear hs
  induction qs generalizing s₀ with
  | nil => exact h
  | cons q qs ih => exact ih _ (h.owes (q.settles_run s₀))

end Program

end EntityStore
