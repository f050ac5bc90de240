import EntityStore.Proofs.Programs
import EntityStore.Proofs.Retries
/-!
# Calls inside of calls

The marker of active code is a counter that each attempt raises and lowers.  `Shared.Steady` is what all code keeps:
the counter is as it was, whichever way the attempts have ended, and no attempt is missing in the counts.
`Program.Makes` lists the calls that a program makes, and those that are made in the code of its calls, each with the
number of bodies that are running around it.  That number comes from where the call stands and not from the counter;
`Program.Makes.active` says that the counter tells it.  So a call is rejected exactly if its policy is strict and it
stands in a body, at any depth (`Program.nested_calls`).
-/
namespace EntityStore

variable {X : Scalars}

/-! ## What the attempts of a loop keep -/

namespace RetryHooks

variable {α σ : Type} {p : RetryHooks α σ} {R : σ → σ → Prop}

theorem along_wait (hR : IsPath R) (hp : p.Along R) (hattempt : ∀ s, R s (p.attempt s).2) (o : TxOptions) (n : Nat)
    (s : σ) : R s (p.wait o n s) := by
  have h := hattempt s
  unfold wait
  generalize p.attempt s = r at h
  obtain ⟨⟨result, flag⟩, s'⟩ := r
  cases result with
  | ok a => exact h
  | error e => exact hR.trans h (hp.failed ..)

theorem along_waited (hR : IsPath R) (hp : p.Along R) (hattempt : ∀ s, R s (p.attempt s).2) (o : TxOptions) (n : Nat)
    (s : σ) : R s (p.waited o n s) := by
  have h := hattempt s
  unfold waited
  generalize p.attempt s = r at h
  obtain ⟨⟨result, flag⟩, s'⟩ := r
  cases result with
  | ok a => exact h
  | error e => exact hR.trans (hR.trans h (hp.failed ..)) (hp.slept ..)

theorem along_before (hR : IsPath R) (hp : p.Along R) (hattempt : ∀ s, R s (p.attempt s).2) (o : TxOptions) (n : Nat)
    (s : σ) (k : Nat) : R s (p.before o n s k) := by
  induction k with
  | zero => exact hR.refl s
  | succ k ih =>
    rw [before_succ]
    exact hR.trans ih (along_waited hR hp hattempt o _ _)

theorem along_loop_of_attempt (hR : IsPath R) (hp : p.Along R) (hattempt : ∀ s, R s (p.attempt s).2) (o : TxOptions)
    (left n : Nat) (s : σ) : R (p.attempt s).2 (p.loop o left n s).2 := by
  rcases p.loop_cases hR hp o left n s with ⟨result, s', hloop, -, hs, -⟩ | ⟨e, left', s', -, -, hs, hloop, -⟩
  · rw [hloop]
    exact hs
  · rw [hloop]
    exact hR.trans hs (along_loop hR hp hattempt o left' (n + 1) s')

end RetryHooks

variable {κ : Type} [DecidableEq κ] {C : κ → EntityType X} {V α : Type}

/-! ## The counter of attempts under way -/

namespace Shared

/-- As many attempts are under way as before, the counts of attempts have not gone back, and a wait without end is still
marked. -/
structure Steady (s s' : Shared C V) : Prop where
  active : s'.active = s.active
  started : s.store.calls.started ≤ s'.store.calls.started
  attempts : s.stats.attempts ≤ s'.stats.attempts
  hung : s.hung = true → s'.hung = true

omit [DecidableEq κ] in
theorem isPath_steady : IsPath (Steady (C := C) (V := V)) where
  refl _ := ⟨rfl, Nat.le_refl _, Nat.le_refl _, id⟩
  trans h h' := ⟨h'.active.trans h.active, Nat.le_trans h.started h'.started, Nat.le_trans h.attempts h'.attempts,
    h'.hung ∘ h.hung⟩

omit [DecidableEq κ] in
theorem steady_of_started {s : Shared C V} {store : FaultyRepository C}
    (h : store.calls.started = s.store.calls.started) : Steady s { s with store } :=
  ⟨rfl, Nat.le_of_eq h.symm, Nat.le_refl _, id⟩

omit [DecidableEq κ] in
theorem steady_close (s : Shared C V) : Steady s (s.mapStats TxStats.recordCall).closeSpan :=
  ⟨rfl, Nat.le_refl _, Nat.le_refl _, id⟩

theorem steady_handle (tx : TxId) : (handle (C := C) (V := V) tx).Along Steady where
  commit s := steady_of_started (s.store.started_commit tx)
  rollback s := steady_of_started (s.store.started_rollback tx)
  report _ _ _ := ⟨rfl, Nat.le_refl _, Nat.le_refl _, id⟩

end Shared

namespace Call

/-- A call goes on steadily, if the callbacks that wait for its end do. -/
def Steady (c c' : Call C V) : Prop :=
  (∀ f ∈ (c.opened.map Prod.snd).getD [], ∀ s, Shared.Steady s (f s)) →
    (∀ f ∈ (c'.opened.map Prod.snd).getD [], ∀ s, Shared.Steady s (f s)) ∧ Shared.Steady c.shared c'.shared

omit [DecidableEq κ] in
theorem isPath_steady : IsPath (Steady (C := C) (V := V)) where
  refl _ h := ⟨h, Shared.isPath_steady.refl _⟩
  trans h h' hc :=
    have ⟨hb, hab⟩ := h hc
    have ⟨hd, hbd⟩ := h' hb
    ⟨hd, Shared.isPath_steady.trans hab hbd⟩

omit [DecidableEq κ] in
theorem steady_of_opened {c c' : Call C V} (hopened : c'.opened = c.opened) (h : Shared.Steady c.shared c'.shared) :
    Steady c c' := fun hc => ⟨hopened ▸ hc, h⟩

theorem steady_releaseOpened (c : Call C V) : Shared.Steady c.shared c.releaseOpened.shared := by
  unfold releaseOpened
  cases c.opened <;> exact ⟨rfl, Nat.le_refl _, Nat.le_refl _, id⟩

theorem steady_hooks (m : Manager) (name : TxName) (body : Body C V α) : (hooks m name body).Along Steady where
  succeeded n c := steady_of_opened rfl (by
    refine ⟨rfl, Nat.le_refl _, ?_, id⟩
    show c.shared.stats.attempts ≤
      ((if m.options.dryRun then TxStats.recordDryRun else TxStats.recordCommit) c.shared.stats).attempts
    split <;> exact Nat.le_refl _)
  failed n verdict e c := steady_of_opened rfl (by cases verdict <;> exact ⟨rfl, Nat.le_refl _, Nat.le_refl _, id⟩)
  slept delay c := steady_of_opened rfl ⟨rfl, Nat.le_refl _, Nat.le_refl _, fun hs => Bool.or_eq_true_iff.2 (.inl hs)⟩
  interrupted n e c := steady_of_opened rfl ⟨rfl, Nat.le_refl _, Nat.le_refl _, id⟩
  exhausted n e c := steady_of_opened rfl ⟨rfl, Nat.le_refl _, Nat.le_refl _, id⟩

variable {body : Body C V α}

theorem active_entered (m : Manager) (c : Call C V) : (c.entered m).active = c.shared.active + 1 :=
  congrArg (· + 1) (steady_releaseOpened { c with shared := { c.shared with store := _ } }).active

/-- **An attempt ends with as many under way as before**, and has asked the store for a transaction. -/
theorem steady_attempt (hbody : ∀ n a, (body n a).Along Shared.Steady) (m : Manager) (name : TxName) (c : Call C V) :
    Steady c (c.attempt m name body).2 ∧
      c.shared.store.calls.started < (c.attempt m name body).2.shared.store.calls.started := by
  have hstarted := c.shared.store.started_start m.options
  have hreleased := steady_releaseOpened
    { c with shared := { c.shared with store := (c.shared.store.start m.options).2 } }
  rw [attempt_eq]
  cases (c.shared.store.start m.options).1 with
  | error e =>
    -- the store has given no transaction, so that the counter has not been raised
    refine ⟨steady_of_opened rfl ⟨rfl, ?_, Nat.le_refl _, id⟩, ?_⟩
    · exact hstarted ▸ Nat.le_succ _
    · exact hstarted ▸ Nat.lt_succ_self _
  | ok tx =>
    obtain ⟨hrun, hatEnd⟩ := TxHandle.along_attempt Shared.isPath_steady (Shared.steady_handle tx) m.options
      (hbody (c.bodies + 1) { tx, name } (c.entered m))
    have hcalls : c.shared.store.calls.started + 1 ≤ (c.entered m).store.calls.started :=
      hstarted ▸ hreleased.started
    have hactive := hrun.active.trans (c.active_entered m)
    refine ⟨fun _ => ⟨hatEnd, ?_, ?_, ?_, hrun.hung ∘ hreleased.hung⟩, ?_⟩
    · show ((Shared.handle tx).attempt m.options (body (c.bodies + 1) { tx, name }) (c.entered m)).state.active - 1 = _
      rw [hactive]
      rfl
    · exact Nat.le_trans (Nat.le_of_succ_le hcalls) hrun.started
    · exact Nat.le_trans hreleased.attempts hrun.attempts
    · exact Nat.lt_of_lt_of_le hcalls hrun.started

theorem steady_counted (hbody : ∀ n a, (body n a).Along Shared.Steady) (m : Manager) (name : TxName) (c : Call C V) :
    Steady c ((hooks m name body).attempt c).2 :=
  isPath_steady.trans (steady_attempt hbody m name c).1 (steady_of_opened rfl ⟨rfl, Nat.le_refl _, Nat.le_succ _, id⟩)

theorem steady_finish {c : Call C V} (h : ∀ f ∈ (c.opened.map Prod.snd).getD [], ∀ s, Shared.Steady s (f s)) :
    Shared.Steady c.shared c.finish :=
  Shared.isPath_steady.trans (TxHandle.along_runCallbacks Shared.isPath_steady h c.shared)
    (steady_releaseOpened (c.mapShared (TxHandle.runCallbacks ((c.opened.map Prod.snd).getD []))))

end Call

namespace Manager

variable {body : Body C V α}

omit [DecidableEq κ] in
theorem admit?_eq_none_iff (m : Manager) (site : CallSite) (s : Shared C V) :
    m.admit? site s = none ↔ s.inTransaction = true ∧ m.separatePolicy = .strict := by
  unfold admit?
  cases s.inTransaction <;> cases m.separatePolicy <;> simp

omit [DecidableEq κ] in
theorem steady_admit? {m : Manager} {site : CallSite} {s s' : Shared C V} (h : m.admit? site s = some s') :
    Shared.Steady s s' := by
  unfold admit? at h
  split at h
  · split at h <;> cases h <;> exact ⟨rfl, Nat.le_refl _, Nat.le_refl _, id⟩
  · cases h
    exact Shared.isPath_steady.refl s

/-- **A call that is let through makes an attempt**, which is counted, and ends with as many under way as before. -/
theorem steady_call (hbody : ∀ n a, (body n a).Along Shared.Steady) (m : Manager) (site : CallSite)
    {s s' : Shared C V} (h : m.admit? site s = some s') :
    (m.tx site body s).2.active = s.active ∧
      s.store.calls.started < (m.tx site body s).2.store.calls.started ∧
      s.stats.attempts < (m.tx site body s).2.stats.attempts ∧
      (s.hung = true → (m.tx site body s).2.hung = true) := by
  obtain ⟨hactive, hstarted, hattempts, hhung⟩ := steady_admit? h
  have hnone : ∀ f ∈ ((m.begin site s').opened.map Prod.snd).getD [], ∀ s, Shared.Steady s (f s) := nofun
  obtain ⟨hmade, hasked⟩ := Call.steady_attempt hbody m (m.nameAt site) (m.begin site s')
  obtain ⟨hwaiting, hattempt⟩ := hmade hnone
  -- the first attempt has been counted once the loop goes on
  obtain ⟨hwaiting, hloop⟩ := RetryHooks.along_loop_of_attempt Call.isPath_steady
    (Call.steady_hooks m (m.nameAt site) body) (Call.steady_counted hbody m (m.nameAt site)) m.options m.retries 1
    (m.begin site s') hwaiting
  have hrest : Shared.Steady ((Call.hooks m (m.nameAt site) body).attempt (m.begin site s')).2.shared
      (m.call (m.nameAt site) body s').2 :=
    Shared.isPath_steady.trans (Shared.isPath_steady.trans hloop (Call.steady_finish hwaiting)) (Shared.steady_close _)
  rw [(tx_of_admit?_eq_some h body).1]
  refine ⟨?_, ?_, ?_, fun hs => hrest.hung (hattempt.hung (hhung hs))⟩
  · exact (hrest.active.trans hattempt.active).trans hactive
  · exact Nat.lt_of_le_of_lt hstarted (Nat.lt_of_lt_of_le hasked hrest.started)
  · exact Nat.lt_of_le_of_lt (Nat.le_trans hattempts hattempt.attempts) hrest.attempts

/-- **A call leaves as many attempts under way as it has found**, whatever it comes to. -/
theorem steady_tx (hbody : ∀ n a, (body n a).Along Shared.Steady) (m : Manager) (site : CallSite) (s : Shared C V) :
    Shared.Steady s (m.tx site body s).2 := by
  cases h : m.admit? site s with
  | none =>
    rw [tx_of_admit?_eq_none h body]
    exact Shared.isPath_steady.refl s
  | some s' =>
    obtain ⟨hactive, hstarted, hattempts, hhung⟩ := steady_call hbody m site h
    exact ⟨hactive, Nat.le_of_lt hstarted, Nat.le_of_lt hattempts, hhung⟩

theorem steady_stage (hbody : ∀ n a, (body n a).Along Shared.Steady) (m : Manager) (site : CallSite) (s : Shared C V)
    (k : Nat) : Call.Steady (m.begin site ((m.admit? site s).getD s)) (m.stage site body s k) :=
  RetryHooks.along_before Call.isPath_steady (Call.steady_hooks m (m.nameAt site) body)
    (Call.steady_counted hbody m (m.nameAt site)) m.options 1 (m.begin site ((m.admit? site s).getD s)) k

theorem steady_ended (hbody : ∀ n a, (body n a).Along Shared.Steady) (m : Manager) (site : CallSite) (s : Shared C V)
    (k : Nat) : Call.Steady (m.begin site ((m.admit? site s).getD s)) (m.ended site body s k) :=
  Call.isPath_steady.trans (steady_stage hbody m site s k)
    (RetryHooks.along_wait Call.isPath_steady (Call.steady_hooks m (m.nameAt site) body)
      (Call.steady_counted hbody m (m.nameAt site)) m.options (k + 1) (m.stage site body s k))

theorem active_stage (hbody : ∀ n a, (body n a).Along Shared.Steady) (m : Manager) (site : CallSite) (s : Shared C V)
    (k : Nat) : (m.stage site body s k).shared.active = s.active := by
  have hbegin : (m.begin site ((m.admit? site s).getD s)).shared.active = s.active := by
    cases h : m.admit? site s with
    | none => rfl
    | some s' => exact (steady_admit? h).active
  exact (steady_stage hbody m site s k (fun f hf => (List.not_mem_nil hf).elim)).2.active.trans hbegin

end Manager

namespace Program

/-- Programs leave as many attempts under way as they have found, and so do the callbacks that they register. -/
theorem steady_denote {p : Scope} (q : Program C V p) (c : p.Context) : (q.denote c).Along Shared.Steady := by
  have hR := Shared.isPath_steady (C := C) (V := V)
  have hstore : ∀ {s : Shared C V} {store : FaultyRepository C}, store.calls.started = s.store.calls.started →
      Shared.Steady s { s with store } := Shared.steady_of_started
  have hstill : ∀ {s s' : Shared C V}, s'.active = s.active → s'.store = s.store → s'.stats = s.stats →
      s'.hung = s.hung → Shared.Steady s s' := fun hactive hstore hstats hhung =>
    ⟨hactive, Nat.le_of_eq (congrArg (·.calls.started) hstore.symm), Nat.le_of_eq (congrArg (·.attempts) hstats.symm),
      fun hs => hhung.trans hs⟩
  induction q with
  | finish result => exact fun s => Outcome.along_done (hR.refl s) result
  | note v next ih => exact fun s => (ih c _).after hR (hstill rfl rfl rfl rfl)
  | askActive next ih => exact fun s => ih s.inTransaction c s
  | cancel token next ih => exact fun s => (ih c _).after hR (hstill rfl rfl rfl rfl)
  | queueFaults faults next ih => exact fun s => (ih c _).after hR (hstore rfl)
  | call m site body next ihbody ih =>
    exact fun s => (ih _ c _).after hR (m.steady_tx (fun n a => ihbody n a) site s)
  | aside w next ih => exact fun s => (ih _ c _).after hR (hstore rfl)
  | work w next ih => exact fun s => (ih _ c _).after hR (hstore rfl)
  | inspect next ih => exact fun s => ih (view c s) c s
  | record level message next ih => exact fun s => (ih c _).after hR (hstore rfl)
  | commit next ih => exact fun s => (ih _ c _).after hR (hstore (s.store.started_commit c.tx))
  | rollback next ih => exact fun s => (ih _ c _).after hR (hstore (s.store.started_rollback c.tx))
  | beforeCommit callback next ihc ih => exact fun s => (ih c s).beforeCommit hR fun s => (ihc c s).dropValue
  | afterCommit callback next ihc ih => exact fun s => (ih c s).afterCommit fun s => (ihc () s).state
  | atEnd callback next ihc ih => exact fun s => (ih c s).atEnd fun s => (ihc () s).state

end Program

/-! ## The calls of a program -/

namespace Program

/-- What is left of a program after its first instruction, and the state in which it goes on. -/
def next? {p : Scope} : Program C V p → p.Context → Shared C V → Option (Program C V p × Shared C V)
  | .finish _, _, _ => none
  | .note v next, _, s => some (next, s.note v)
  | .askActive next, _, s => some (next s.inTransaction, s)
  | .cancel token next, _, s => some (next, { s with tokens := s.tokens.cancel token })
  | .queueFaults faults next, _, s => some (next, { s with store := s.store.queue faults })
  | .call m site body next, _, s =>
    let (result, s) := m.tx site (fun n a => (body n).denote a) s
    some (next result, s)
  | .aside w next, _, s =>
    let (result, s) := s.onStore (fun store => store.aside w)
    some (next result, s)
  | .work w next, a, s =>
    let (result, s) := s.onStore (fun store => store.work a.tx w)
    some (next result, s)
  | .inspect next, a, s => some (next (view a s), s)
  | .record level message next, a, s =>
    some (next, { s with store := s.store.record a.tx (recorded level message) })
  | .commit next, a, s =>
    let (result, s) := s.onStore (fun store => store.commit a.tx)
    some (next result, s)
  | .rollback next, a, s =>
    let (result, s) := s.onStore (fun store => store.rollback a.tx)
    some (next result, s)
  | .beforeCommit _ next, _, s | .afterCommit _ next, _, s | .atEnd _ next, _, s => some (next, s)

theorem denote_of_next? {p : Scope} {q q' : Program C V p} {c : p.Context} {s s' : Shared C V}
    (h : q.next? c s = some (q', s')) :
    (q.denote c s).result = (q'.denote c s').result ∧ (q.denote c s).state = (q'.denote c s').state := by
  cases q <;> cases h <;> exact ⟨rfl, rfl⟩

theorem active_of_next? {p : Scope} {q q' : Program C V p} {c : p.Context} {s s' : Shared C V}
    (h : q.next? c s = some (q', s')) : s'.active = s.active := by
  cases q with
  | call m site body next =>
    cases h
    exact (m.steady_tx (fun n a => (body n).steady_denote a) site s).active
  | finish => cases h
  | _ => cases h; rfl

end Program

/-- A call that is made, and the state in which that happens. -/
structure MadeCall (C : κ → EntityType X) (V : Type) where
  /-- How many bodies are running around it. -/
  depth : Nat
  manager : Manager
  site : CallSite
  body : Nat → Program C V .attempt
  before : Shared C V

namespace MadeCall

variable (x : MadeCall C V)

/-- What the call comes to. -/
def answer : Except Error V × Shared C V := x.manager.tx x.site (fun n a => (x.body n).denote a) x.before

/-- The state before the attempt after `k` others. -/
def stage (k : Nat) : Call C V := x.manager.stage x.site (fun n a => (x.body n).denote a) x.before k

/-- What the attempt after `k` others comes to. -/
def trial (k : Nat) : Trial V := x.manager.trial x.site (fun n a => (x.body n).denote a) x.before k

/-- The call gets as far as the attempt after `k` others. -/
def Reaches (k : Nat) : Prop :=
  (x.manager.admit? x.site x.before).isSome ∧
    ∀ j < k, ∀ result hangs, ¬ (x.trial j).Ends x.manager.options x.manager.maxAttempts (j + 1) result hangs

/-- The call is turned away: it comes to an error with its name, and whatever its code, nothing has happened. -/
def Rejected : Prop :=
  ∀ body : Body C V V, x.manager.tx x.site body x.before =
    (.error (.nestedTransaction (x.manager.nameAt x.site).logName), x.before)

end MadeCall

/-- The calls that a program makes with `d` bodies running around it, and those that are made in their bodies. -/
inductive Program.Makes : {p : Scope} → Nat → Program C V p → p.Context → Shared C V → MadeCall C V → Prop
  | here {p : Scope} {d : Nat} {c : p.Context} {s : Shared C V} (m : Manager) (site : CallSite)
      (body : Nat → Program C V .attempt) (next : Except Error V → Program C V p) :
      Makes d (.call m site body next) c s ⟨d, m, site, body, s⟩
  /-- In the body of a call, as it runs in one of its attempts. -/
  | inside {p : Scope} {d : Nat} {c : p.Context} {s : Shared C V} (m : Manager) (site : CallSite)
      (body : Nat → Program C V .attempt) (next : Except Error V → Program C V p) (k : Nat) (a : Attempt)
      {x : MadeCall C V} (hreaches : MadeCall.Reaches ⟨d, m, site, body, s⟩ k)
      (hrun : (MadeCall.stage ⟨d, m, site, body, s⟩ k).run? m (m.nameAt site) = some a)
      (h : Makes (d + 1) (body ((MadeCall.stage ⟨d, m, site, body, s⟩ k).bodies + 1)) a
        ((MadeCall.stage ⟨d, m, site, body, s⟩ k).entered m) x) :
      Makes d (.call m site body next) c s x
  | later {p : Scope} {d : Nat} {c : p.Context} {s s' : Shared C V} {q q' : Program C V p} {x : MadeCall C V}
      (hnext : q.next? c s = some (q', s')) (h : Makes d q' c s' x) : Makes d q c s x

namespace MadeCall

variable (x : MadeCall C V)

theorem steady_body : ∀ n a, ((fun n a => (x.body n).denote a : Body C V V) n a).Along Shared.Steady :=
  fun n a => (x.body n).steady_denote a

theorem rejected_iff : x.Rejected ↔ x.before.inTransaction = true ∧ x.manager.separatePolicy = .strict := by
  constructor
  · intro h
    by_contra hnot
    -- a call that is let through asks the store for a transaction, whatever it comes to
    obtain ⟨s', hs'⟩ := Option.ne_none_iff_exists'.1 (mt (Manager.admit?_eq_none_iff ..).1 hnot)
    have hgrows := (Manager.steady_call x.steady_body x.manager x.site hs').2.1
    rw [h] at hgrows
    exact Nat.lt_irrefl _ hgrows
  · exact fun h body => Manager.tx_of_admit?_eq_none ((Manager.admit?_eq_none_iff ..).2 h) body

theorem isSome_admit? (h : ¬ x.Rejected) : (x.manager.admit? x.site x.before).isSome = true :=
  Option.isSome_iff_ne_none.2 fun hnone => h fun body => Manager.tx_of_admit?_eq_none hnone body

/-- A call that is not rejected makes one attempt after another, until one ends it; if it hangs, that stays marked. -/
theorem exists_ends (h : ¬ x.Rejected) : ∃ k < x.manager.maxAttempts, ∃ hangs, x.Reaches k ∧
    (x.trial k).Ends x.manager.options x.manager.maxAttempts (k + 1) x.answer.1 hangs ∧
    (hangs = true → x.answer.2.hung = true) := by
  have hlets := x.isSome_admit? h
  obtain ⟨s', hs'⟩ := Option.isSome_iff_exists.1 hlets
  obtain ⟨k, hk, hangs, c, hbefore, hends, hhung, hidles, hstate⟩ :=
    x.manager.call_ends x.site (fun n a => (x.body n).denote a) x.before
  have hcall : x.answer = x.manager.call (x.manager.nameAt x.site) (fun n a => (x.body n).denote a)
      ((x.manager.admit? x.site x.before).getD x.before) := by
    rw [hs']
    exact (Manager.tx_of_admit?_eq_some hs' _).1
  rw [← hcall] at hends hstate
  refine ⟨k, hk, hangs, ⟨hlets, hbefore⟩, hends, fun hangs => ?_⟩
  have hwaiting := (Manager.steady_ended x.steady_body x.manager x.site x.before k nofun).1
  rw [hstate]
  refine (Call.steady_finish (hidles.opened ▸ hwaiting)).hung ?_
  rw [hhung, hangs, Bool.or_true]

end MadeCall

namespace Program

/-- **The counter tells how many bodies are running around a call.** -/
theorem Makes.active {p : Scope} {d : Nat} {q : Program C V p} {c : p.Context} {s : Shared C V} {x : MadeCall C V}
    (h : q.Makes d c s x) : x.before.active + d = s.active + x.depth := by
  induction h with
  | here m site body next => rfl
  | @inside p d c s m site body next k a x hreaches hrun h ih =>
    have hstage : (MadeCall.stage ⟨d, m, site, body, s⟩ k).shared.active = s.active :=
      Manager.active_stage (MadeCall.steady_body ⟨d, m, site, body, s⟩) m site s k
    -- one body more runs around the call, and the attempt has raised the counter by one
    rw [Call.active_entered, hstage] at ih
    omega
  | later hnext h ih => rw [ih, active_of_next? hnext]

/-- **Calls in the bodies of others are turned away by a strict policy, and by nothing else.**  A call that a program
makes is rejected exactly if it stands in a body, at any depth, and its policy is strict; then it comes to an error with
its own name and has done nothing.  Every other call makes at least one attempt, and comes to what the last one makes of
it, or hangs after that one.  The marker is up around a call exactly if it stands in a body, and is as before when the call
has returned. -/
theorem nested_calls (q : Program C V .outside) {s : Shared C V} (hs : s.inTransaction = false) {x : MadeCall C V}
    (hx : q.Makes 0 () s x) :
    (x.Rejected ↔ 0 < x.depth ∧ x.manager.separatePolicy = .strict) ∧
      (¬ x.Rejected →
        (∃ k < x.manager.maxAttempts, ∃ hangs, x.Reaches k ∧
          (x.trial k).Ends x.manager.options x.manager.maxAttempts (k + 1) x.answer.1 hangs ∧
          (hangs = true → x.answer.2.hung = true)) ∧
        x.before.store.calls.started < x.answer.2.store.calls.started ∧
        x.before.stats.attempts < x.answer.2.stats.attempts) ∧
      x.before.inTransaction = decide (0 < x.depth) ∧ x.answer.2.inTransaction = x.before.inTransaction := by
  have hidle : s.active = 0 := Nat.eq_zero_of_not_pos (of_decide_eq_false hs)
  have hactive := hx.active
  rw [hidle, Nat.add_zero, Nat.zero_add] at hactive
  have hmarker : x.before.inTransaction = decide (0 < x.depth) := by
    unfold Shared.inTransaction
    rw [hactive]
  refine ⟨?_, fun hnot => ⟨x.exists_ends hnot, ?_⟩, hmarker, ?_⟩
  · rw [x.rejected_iff, hmarker, decide_eq_true_iff]
  · obtain ⟨s', hs'⟩ := Option.isSome_iff_exists.1 (x.isSome_admit? hnot)
    obtain ⟨-, hstarted, hattempts, -⟩ := Manager.steady_call x.steady_body x.manager x.site hs'
    exact ⟨hstarted, hattempts⟩
  · have hafter : x.answer.2.active = x.before.active := (Manager.steady_tx x.steady_body x.manager x.site x.before).active
    unfold Shared.inTransaction
    rw [hafter]

end Program

namespace Sample

/-- A manager that turns calls away beside another transaction. -/
def wary : Manager := { patient with separatePolicy := .strict }

def inner : Program (catalog "sample") Nat .attempt :=
  .call wary ⟨"inner", 3⟩ (fun n => .finish (.ok n)) .finish

def middle : Program (catalog "sample") Nat .attempt := .call patient ⟨"middle", 2⟩ (fun _ => inner) .finish

/-- A program that makes a call in a call in a call. -/
def nesting : Program (catalog "sample") Nat .outside := .call patient ⟨"outer", 1⟩ (fun _ => middle) .finish

def outerCall : MadeCall (catalog "sample") Nat := ⟨0, patient, ⟨"outer", 1⟩, fun _ => middle, {}⟩

def middleCall : MadeCall (catalog "sample") Nat :=
  ⟨1, patient, ⟨"middle", 2⟩, fun _ => inner, (outerCall.stage 0).entered patient⟩

def innerCall : MadeCall (catalog "sample") Nat :=
  ⟨2, wary, ⟨"inner", 3⟩, fun n => .finish (.ok n), (middleCall.stage 0).entered patient⟩

end Sample

open Sample in
theorem Program.nested_calls_at_depth_two :
    ({} : Shared (catalog "sample") Nat).inTransaction = false ∧ nesting.Makes 0 () {} innerCall ∧
      innerCall.depth = 2 ∧ innerCall.before.inTransaction = true ∧ innerCall.Rejected ∧
      (nesting.run {}).1 = .error (.nestedTransaction "inner:3") := by
  have hidle : ({} : Shared (catalog "sample") Nat).inTransaction = false := rfl
  have hmade : nesting.Makes 0 () {} innerCall := by
    refine .inside _ _ _ _ 0 ⟨1, patient.nameAt ⟨"outer", 1⟩⟩ ⟨rfl, nofun⟩ rfl ?_
    refine .inside _ _ _ _ 0 ⟨2, patient.nameAt ⟨"middle", 2⟩⟩ ⟨rfl, nofun⟩ rfl ?_
    exact .here ..
  obtain ⟨hrejected, -, hmarker, -⟩ := nesting.nested_calls hidle hmade
  exact ⟨hidle, hmade, rfl, hmarker.trans rfl, hrejected.2 ⟨by decide, rfl⟩, by decide +kernel⟩

end EntityStore
