import EntityStore.Proofs.Calls
import EntityStore.Samples.Catalog
/-!
# Where a call stops

A call makes one attempt after another, and the first one that stops it decides its result.  `Trial.Stops` is the rule
for a single attempt, which looks at nothing but what the attempt came to, its number, and whether the caller was
interrupted before the wait for another one, or in the course of it.  If that wait never ends, the call does not return
(`Trial.Hangs`).  `RetryHooks.loop_ends` says that a loop follows the rule.  `Manager.tx_stops` is that of a whole call,
with an account of what the store was asked and of how often the code ran.
-/
namespace EntityStore

variable {X : Scalars} {α σ : Type}

/-- What an attempt has come to. -/
structure Trial (α : Type) where
  result : Except Error α
  commitAttempted : Bool
  /-- Whether the caller is interrupted by the time that a wait for another attempt would begin. -/
  cancelled : Bool
  /-- What happens during that wait. -/
  during : Meanwhile

/-- Attempt number `i` of at most `max` stops a call, which comes to the given result. -/
inductive Trial.Stops (o : TxOptions) (max i : Nat) (t : Trial α) : Except Error α → Prop
  | value {a : α} (h : t.result = .ok a) : Stops o max i t (.ok a)
  | fatal {e : Error} (h : t.result = .error e) (hkind : e.isRetryable = false) : Stops o max i t (.error e)
  /-- The outcome of the attempt is unknown, and the options forbid to try again. -/
  | refused {e : Error} (h : t.result = .error e) (hkind : e.kind = .conditionallyRetryable)
      (hflag : o.canRetry t.commitAttempted = false) :
      Stops o max i t (.error (.unavailable "Conditional retries not attempted" false e))
  | interrupted {e : Error} (h : t.result = .error e) (hkind : e.isRetryable = true)
      (hflag : e.kind = .conditionallyRetryable → o.canRetry t.commitAttempted = true) (hi : i < max)
      (hcancelled : t.cancelled = true ∨ t.during.cancelled = true) :
      Stops o max i t (.error (.interrupted "DB query interrupted"))
  | exhausted {e : Error} (h : t.result = .error e) (hkind : e.isRetryable = true)
      (hflag : e.kind = .conditionallyRetryable → o.canRetry t.commitAttempted = true) (hi : i = max) :
      Stops o max i t (.error (.unavailable
        (if e.kind = .conditionallyRetryable then "Conditional retries failed" else "Retries failed") true e))

/-- After attempt number `i` of at most `max` a call waits for another one, and nothing ends the wait: it is longer than
the clock reaches, and the caller is not interrupted. -/
def Trial.Hangs (o : TxOptions) (max i : Nat) (t : Trial α) : Prop :=
  ∃ e, t.result = .error e ∧ e.isRetryable = true ∧
    (e.kind = .conditionallyRetryable → o.canRetry t.commitAttempted = true) ∧ i < max ∧
    t.cancelled = false ∧ t.during.cancelled = false ∧
    t.during.reaches (RetryHooks.delayAfter i e t.during.draw) = false

/-- Attempt number `i` of at most `max` is the last one of a call.  The call comes to the given result, or it hangs and
never returns. -/
inductive Trial.Ends (o : TxOptions) (max i : Nat) (t : Trial α) : Except Error α → (hangs : Bool) → Prop
  | stops {result : Except Error α} (h : t.Stops o max i result) : Ends o max i t result false
  | hangs (h : t.Hangs o max i) (e : Error) : Ends o max i t (.error e) true

theorem Verdict.of_eq_fatal_iff {o : TxOptions} {flag : Bool} {e : Error} :
    Verdict.of o flag e = .fatal ↔ e.isRetryable = false := by
  unfold Verdict.of
  cases e.isRetryable with
  | false => simp
  | true =>
    simp only [Bool.not_true, Bool.false_eq_true, if_false, reduceCtorEq, iff_false]
    split <;> nofun

theorem Verdict.of_eq_refused_iff {o : TxOptions} {flag : Bool} {e : Error} :
    Verdict.of o flag e = .refused ↔ e.kind = .conditionallyRetryable ∧ o.canRetry flag = false := by
  unfold Verdict.of
  cases hkind : e.kind <;> simp [Error.isRetryable, ErrorKind.isRetryable, hkind]

theorem Verdict.of_eq_again_iff {o : TxOptions} {flag : Bool} {e : Error} :
    Verdict.of o flag e = .again ↔
      e.isRetryable = true ∧ (e.kind = .conditionallyRetryable → o.canRetry flag = true) := by
  unfold Verdict.of
  cases hkind : e.kind <;> simp [Error.isRetryable, ErrorKind.isRetryable, hkind]

theorem Error.rethrow_of_isRetryable {e : Error} (h : e.isRetryable = true) :
    e.rethrow = .unavailable
      (if e.kind = .conditionallyRetryable then "Conditional retries failed" else "Retries failed") true e := by
  unfold rethrow
  cases hkind : e.kind <;> simp_all [isRetryable, ErrorKind.isRetryable]

/-- What can be told from a state about the wait that begins in it. -/
structure Lookout (σ : Type) where
  cancelled : σ → Bool
  during : σ → Meanwhile
  hung : σ → Bool

/-- What a wait comes to that begins in the state. -/
def Lookout.wait (w : Lookout σ) (delay : Float → Duration) (s : σ) : Wait :=
  .of (w.cancelled s) (w.during s) (delay (w.during s).draw)

namespace RetryHooks

variable (p : RetryHooks α σ) (o : TxOptions)

/-- The state after attempt number `n`, in which a wait for another one begins. -/
def wait (n : Nat) (s : σ) : σ :=
  match p.attempt s with
  | ((.ok _, _), s) => s
  | ((.error e, commitAttempted), s) => p.failed n (Verdict.of o commitAttempted e) e s

/-- The state after attempt number `n` and the wait for another one. -/
def waited (n : Nat) (s : σ) : σ :=
  match p.attempt s with
  | ((.ok _, _), s) => s
  | ((.error e, commitAttempted), s) => (p.sleep (delayAfter n e) (p.failed n (Verdict.of o commitAttempted e) e s)).2

/-- The state before the attempt that comes after `k` others, the first of which has number `n`, whether or not a loop
makes them all. -/
def before (n : Nat) (s : σ) : (k : Nat) → σ
  | 0 => s
  | k + 1 => before (n + 1) (p.waited o n s) k

theorem before_succ (n : Nat) (s : σ) (k : Nat) :
    p.before o n s (k + 1) = p.waited o (n + k) (p.before o n s k) := by
  induction k generalizing n s with
  | zero => rfl
  | succ k ih =>
    rw [before, ih, before, Nat.add_right_comm]
    rfl

/-- What attempt number `n` comes to. -/
def trial (w : Lookout σ) (n : Nat) (s : σ) : Trial α where
  result := (p.attempt s).1.1
  commitAttempted := (p.attempt s).1.2
  cancelled := w.cancelled (p.wait o n s)
  during := w.during (p.wait o n s)

/-- Waiting comes to what can be told before, and marks a wait without end.  Nothing else does, beside the attempts. -/
structure Heeds (w : Lookout σ) : Prop where
  sleep : ∀ delay s, (p.sleep delay s).1 = (w.wait delay s).result
  hung_sleep : ∀ delay s, w.hung (p.sleep delay s).2 = (w.hung s || w.wait delay s == .endless)
  succeeded : ∀ n s, w.hung (p.succeeded n s) = w.hung s
  interrupted : ∀ n e s, w.hung (p.interrupted n e s) = w.hung s
  exhausted : ∀ n e s, w.hung (p.exhausted n e s) = w.hung s

variable {p o} {R : σ → σ → Prop} {w : Lookout σ}

/-- **A loop ends with its first attempt, or goes on from the state after the wait.** -/
theorem loop_step (hR : IsPath R) (hp : p.Along R) (hw : p.Heeds w) (left n : Nat) (s : σ) :
    (∃ hangs, (p.trial o w n s).Ends o (n + left) n (p.loop o left n s).1 hangs ∧
      w.hung (p.loop o left n s).2 = (w.hung (p.wait o n s) || hangs) ∧ R (p.wait o n s) (p.loop o left n s).2) ∨
    ∃ left', left = left' + 1 ∧ p.loop o left n s = p.loop o left' (n + 1) (p.waited o n s) ∧
      ∀ result hangs, ¬ (p.trial o w n s).Ends o (n + left) n result hangs := by
  have hslept : ∀ {e : Error} {s₁ s₂ : σ} {answer : Except Error Unit}, p.sleep (delayAfter n e) s₁ = (answer, s₂) →
      answer = (w.wait (delayAfter n e) s₁).result ∧
        w.hung s₂ = (w.hung s₁ || w.wait (delayAfter n e) s₁ == .endless) ∧ R s₁ s₂ := by
    intro e s₁ s₂ answer hsleep
    have hanswer := hw.sleep (delayAfter n e) s₁
    have hhung := hw.hung_sleep (delayAfter n e) s₁
    have hpath := hp.slept (delayAfter n e) s₁
    rw [hsleep] at hanswer hhung hpath
    exact ⟨hanswer, hhung, hpath⟩
  unfold trial wait waited
  cases p.round o left n s with
  | succeeded hmade hloop =>
    rw [hmade, hloop]
    exact .inl ⟨false, .stops (.value rfl), by rw [hw.succeeded, Bool.or_false], hp.succeeded ..⟩
  | fatal hmade hverdict hloop =>
    rw [hmade, hloop]
    dsimp only
    rw [hverdict]
    exact .inl ⟨false, .stops (.fatal rfl (Verdict.of_eq_fatal_iff.1 hverdict)), (Bool.or_false _).symm, hR.refl _⟩
  | refused hmade hverdict hloop =>
    obtain ⟨hkind, hflag⟩ := Verdict.of_eq_refused_iff.1 hverdict
    rw [hmade, hloop]
    dsimp only
    rw [hverdict]
    exact .inl ⟨false, .stops (.refused rfl hkind hflag), (Bool.or_false _).symm, hR.refl _⟩
  | exhausted hmade hverdict hleft hloop =>
    obtain ⟨hkind, hflag⟩ := Verdict.of_eq_again_iff.1 hverdict
    subst hleft
    rw [hmade, hloop]
    dsimp only
    rw [hverdict, Error.rethrow_of_isRetryable hkind]
    exact .inl ⟨false, .stops (.exhausted rfl hkind hflag rfl), by rw [hw.exhausted, Bool.or_false], hp.exhausted ..⟩
  | @interrupted e interruption flag s₁ s₂ left' hmade hverdict hleft hsleep hloop =>
    obtain ⟨hkind, hflag⟩ := Verdict.of_eq_again_iff.1 hverdict
    obtain ⟨hanswer, hhung, hpath⟩ := hslept hsleep
    have hpath := hR.trans hpath (hp.interrupted n e s₂)
    have hmore : n < n + left := by omega
    rw [hmade, hloop]
    dsimp only
    rw [hverdict, hw.interrupted]
    -- an interruption is reported of a wait that was interrupted, and of one that never ends
    cases hwait : w.wait (delayAfter n e) (p.failed n .again e s₁) with
    | elapsed =>
      rw [hwait] at hanswer
      cases hanswer
    | interrupted =>
      rw [hwait] at hanswer hhung
      cases hanswer
      exact .inl ⟨false, .stops (.interrupted rfl hkind hflag hmore (Wait.of_eq_interrupted_iff.1 hwait)), hhung, hpath⟩
    | endless =>
      rw [hwait] at hanswer hhung
      cases hanswer
      obtain ⟨hcancelled, hduring, hreaches⟩ := Wait.of_eq_endless_iff.1 hwait
      exact .inl ⟨true, .hangs ⟨e, rfl, hkind, hflag, hmore, hcancelled, hduring, hreaches⟩ _, hhung, hpath⟩
  | @continues e flag s₁ s₂ left' hmade hverdict hleft hsleep hloop =>
    obtain ⟨hkind, hflag⟩ := Verdict.of_eq_again_iff.1 hverdict
    have hwait : w.wait (delayAfter n e) (p.failed n .again e s₁) = .elapsed := by
      obtain ⟨hanswer, -⟩ := hslept hsleep
      cases hwait : w.wait (delayAfter n e) (p.failed n .again e s₁) with
      | elapsed => rfl
      | interrupted => rw [hwait] at hanswer; cases hanswer
      | endless => rw [hwait] at hanswer; cases hanswer
    obtain ⟨hcancelled, hreaches⟩ := Wait.of_eq_elapsed_iff.1 hwait
    rw [hmade, hloop]
    dsimp only
    rw [hverdict, hsleep]
    refine .inr ⟨left', hleft, rfl, fun result hangs hends => ?_⟩
    -- each way to end contradicts the verdict, the attempts that are left, or the wait that is over
    cases hends with
    | hangs h =>
      obtain ⟨e', h, -, -, -, -, -, hendless⟩ := h
      cases h
      rw [hreaches] at hendless
      cases hendless
    | stops h =>
      cases h with
      | value h => cases h
      | fatal h hfatal => cases h; rw [hkind] at hfatal; cases hfatal
      | refused h hcond hrefused => cases h; rw [hflag hcond] at hrefused; cases hrefused
      | interrupted h _ _ _ hinterrupted => exact absurd hinterrupted hcancelled
      | exhausted h _ _ hi => omega

/-- **A loop comes to the result of the first attempt that ends it**, and what it does after that attempt goes along
with `R`. -/
theorem loop_ends (hR : IsPath R) (hp : p.Along R) (hw : p.Heeds w) (left n : Nat) (s : σ) :
    ∃ k ≤ left, ∃ hangs,
      (∀ j < k, ∀ result hangs,
        ¬ (p.trial o w (n + j) (p.before o n s j)).Ends o (n + left) (n + j) result hangs) ∧
      (p.trial o w (n + k) (p.before o n s k)).Ends o (n + left) (n + k) (p.loop o left n s).1 hangs ∧
      w.hung (p.loop o left n s).2 = (w.hung (p.wait o (n + k) (p.before o n s k)) || hangs) ∧
      R (p.wait o (n + k) (p.before o n s k)) (p.loop o left n s).2 := by
  induction left generalizing n s with
  | zero =>
    rcases loop_step hR hp hw 0 n s with ⟨hangs, hends⟩ | ⟨left', hleft, -⟩
    · exact ⟨0, Nat.le_refl 0, hangs, nofun, hends⟩
    · cases hleft
  | succ left ih =>
    rcases loop_step hR hp hw (left + 1) n s with ⟨hangs, hends⟩ | ⟨left', hleft, hloop, hgoes⟩
    · exact ⟨0, Nat.zero_le _, hangs, nofun, hends⟩
    · cases hleft
      obtain ⟨k, hk, hangs, hbefore, hends⟩ := ih (n + 1) (p.waited o n s)
      have hnumber : ∀ j, n + 1 + j = n + (j + 1) := fun j => by omega
      simp only [hnumber] at hbefore hends
      rw [hloop]
      refine ⟨k + 1, Nat.succ_le_succ hk, hangs, fun j hj => ?_, hends⟩
      cases j with
      | zero => exact hgoes
      | succ j => exact hbefore j (Nat.lt_of_succ_lt_succ hj)

end RetryHooks

/-! ## What a call asks of the store -/

variable {κ : Type} [DecidableEq κ] {C : κ → EntityType X} {V : Type}

namespace FaultyRepository

omit [DecidableEq κ] in
theorem started_start (st : FaultyRepository C) (o : TxOptions) :
    (st.start o).2.calls.started = st.calls.started + 1 := by
  unfold start
  dsimp only
  split <;> rfl

theorem started_commit (st : FaultyRepository C) (tx : TxId) :
    (st.commit tx).2.calls.started = st.calls.started := by
  unfold commit
  dsimp only
  split <;> rfl

theorem started_rollback (st : FaultyRepository C) (tx : TxId) :
    (st.rollback tx).2.calls.started = st.calls.started := by
  unfold rollback
  dsimp only
  generalize st.inner.rollback tx = r
  obtain ⟨answer, inner⟩ := r
  cases answer with
  | error e => rfl
  | ok u =>
    dsimp only
    split <;> rfl

omit [DecidableEq κ] in
theorem commitAttempted_of_start {st : FaultyRepository C} {o : TxOptions} {tx : TxId}
    (h : (st.start o).1 = .ok tx) : (st.start o).2.commitAttempted tx = false := by
  unfold start at h ⊢
  dsimp only at h ⊢
  split at h
  · cases h
  · cases h
    unfold commitAttempted armedOf arm Repository.transaction? Repository.start
    simp [Dict.getD, Dict.get?_insert, Transaction.commitAttempted]

end FaultyRepository

/-- Nothing asks the store for a transaction or leaves a note. -/
structure Shared.Silent (s s' : Shared C V) : Prop where
  started : s'.store.calls.started = s.store.calls.started
  journal : s'.journal = s.journal

omit [DecidableEq κ] in
theorem Shared.isPath_silent : IsPath (Shared.Silent (C := C) (V := V)) where
  refl _ := ⟨rfl, rfl⟩
  trans h h' := ⟨h'.started.trans h.started, h'.journal.trans h.journal⟩

/-- Code that leaves one note, which tells its attempt, whenever it runs; it starts no transactions of its own, and
its callbacks do neither. -/
def Body.Notes (mark : Attempt → V) (body : Body C V α) : Prop :=
  ∀ n a s, (body n a s).Along Shared.Silent (s.note (mark a))

namespace Call

/-- The state in which the code starts that runs in a transaction just opened. -/
def entered (m : Manager) (c : Call C V) : Shared C V :=
  ({ c with shared := { c.shared with store := (c.shared.store.start m.options).2 } }.releaseOpened).shared.enter

/-- What an attempt comes to: the failure to start, or what the code and the end of a transaction come to, in which
no commit had been attempted before. -/
def Yields (m : Manager) (name : TxName) (body : Body C V α) (c : Call C V) (t : Trial α) : Prop :=
  match (c.shared.store.start m.options).1 with
  | .error e => t.result = .error e ∧ t.commitAttempted = false
  | .ok tx =>
    let ended := (Shared.handle tx).attempt m.options (body (c.bodies + 1) { tx, name }) (c.entered m)
    (c.shared.store.start m.options).2.commitAttempted tx = false ∧ t.result = ended.result ∧
      t.commitAttempted = ended.state.store.commitAttempted tx

/-- The attempt in which the code runs next, if there is one. -/
def run? (m : Manager) (name : TxName) (c : Call C V) : Option Attempt :=
  (c.shared.store.start m.options).1.toOption.map (fun tx => { tx, name })

/-- The call has only counted and reported. -/
structure Reports (c c' : Call C V) : Prop where
  shared : ∃ stats events, c'.shared = { c.shared with stats, events }
  bodies : c'.bodies = c.bodies
  opened : c'.opened = c.opened

/-- The call has only counted, reported and waited. -/
structure Idles (c c' : Call C V) : Prop where
  shared : ∃ stats events tokens waits hung, c'.shared = { c.shared with stats, events, tokens, waits, hung }
  bodies : c'.bodies = c.bodies
  opened : c'.opened = c.opened

omit [DecidableEq κ] in
theorem Reports.idles {c c' : Call C V} (h : Reports c c') : Idles c c' := by
  obtain ⟨⟨stats, events, hshared⟩, hbodies, hopened⟩ := h
  exact ⟨⟨stats, events, _, _, _, hshared⟩, hbodies, hopened⟩

omit [DecidableEq κ] in
theorem isPath_idles : IsPath (Idles (C := C) (V := V)) where
  refl _ := ⟨⟨_, _, _, _, _, rfl⟩, rfl, rfl⟩
  trans h h' := by
    obtain ⟨_, _, _, _, _, hs⟩ := h.shared
    obtain ⟨_, _, _, _, _, hs'⟩ := h'.shared
    exact ⟨⟨_, _, _, _, _, by rw [hs', hs]⟩, h'.bodies.trans h.bodies, h'.opened.trans h.opened⟩

omit [DecidableEq κ] in
theorem Idles.journal {c c' : Call C V} (h : Idles c c') : c'.shared.journal = c.shared.journal := by
  obtain ⟨_, _, _, _, _, hshared⟩ := h.shared
  rw [hshared]

theorem idles_hooks (m : Manager) (name : TxName) (body : Body C V α) : (hooks m name body).Along Idles where
  succeeded _ _ := ⟨⟨_, _, _, _, _, rfl⟩, rfl, rfl⟩
  failed n verdict e c := ⟨by cases verdict <;> exact ⟨_, _, _, _, _, rfl⟩, rfl, rfl⟩
  slept _ _ := ⟨⟨_, _, _, _, _, rfl⟩, rfl, rfl⟩
  interrupted _ _ _ := ⟨⟨_, _, _, _, _, rfl⟩, rfl, rfl⟩
  exhausted _ _ _ := ⟨⟨_, _, _, _, _, rfl⟩, rfl, rfl⟩

/-- A call waits on the token of its manager, and what happens meanwhile is the next that the shared state tells. -/
def lookout (m : Manager) : Lookout (Call C V) where
  cancelled c := c.shared.tokens.isCancelled m.token
  during c := c.shared.waits.headD {}
  hung c := c.shared.hung

theorem heeds_hooks (m : Manager) (name : TxName) (body : Body C V α) : (hooks m name body).Heeds (lookout m) where
  sleep _ _ := rfl
  hung_sleep _ _ := rfl
  succeeded _ _ := rfl
  interrupted _ _ _ := rfl
  exhausted _ _ _ := rfl

/-- An attempt reports after it has been made, and nothing else happens until the wait begins. -/
theorem reports_wait (m : Manager) (name : TxName) (body : Body C V α) (n : Nat) (c : Call C V) :
    Reports (c.attempt m name body).2 ((hooks m name body).wait m.options n c) := by
  have hmade : (hooks m name body).attempt c = ((c.attempt m name body).1,
    (c.attempt m name body).2.mapShared (fun s => s.mapStats TxStats.recordAttempt)) := rfl
  unfold RetryHooks.wait
  rw [hmade]
  generalize c.attempt m name body = r
  obtain ⟨⟨result, flag⟩, c'⟩ := r
  cases result with
  | ok a => exact ⟨⟨_, _, rfl⟩, rfl, rfl⟩
  | error e =>
    dsimp only
    exact ⟨by cases Verdict.of m.options flag e <;> exact ⟨_, _, rfl⟩, rfl, rfl⟩

theorem idles_waited (m : Manager) (name : TxName) (body : Body C V α) (n : Nat) (c : Call C V) :
    Idles ((hooks m name body).wait m.options n c) ((hooks m name body).waited m.options n c) := by
  unfold RetryHooks.wait RetryHooks.waited
  generalize (hooks m name body).attempt c = r
  obtain ⟨⟨result, flag⟩, c'⟩ := r
  cases result with
  | ok a => exact isPath_idles.refl c'
  | error e => exact (idles_hooks m name body).slept ..

theorem attempt_eq (m : Manager) (name : TxName) (body : Body C V α) (c : Call C V) :
    c.attempt m name body = match (c.shared.store.start m.options).1 with
      | .error e =>
        ((.error e, false), { c with shared := { c.shared with store := (c.shared.store.start m.options).2 } })
      | .ok tx =>
        let ended := (Shared.handle tx).attempt m.options (body (c.bodies + 1) { tx, name }) (c.entered m)
        ((ended.result, ended.state.store.commitAttempted tx),
          { shared := ended.state.leave, bodies := c.bodies + 1, opened := some (tx, ended.atEnd) }) := by
  have hstart : c.shared.onStore (fun store => store.start m.options) =
    ((c.shared.store.start m.options).1, { c.shared with store := (c.shared.store.start m.options).2 }) := rfl
  unfold attempt entered
  rw [hstart]
  generalize c.shared.store.start m.options = started
  obtain ⟨answer, store⟩ := started
  cases answer with
  | error e => rfl
  | ok tx =>
    have hbodies : ({ c with shared := { c.shared with store } }.releaseOpened).bodies = c.bodies := by
      unfold releaseOpened
      cases c.opened <;> rfl
    dsimp only
    rw [hbodies]

theorem yields_trial (m : Manager) (name : TxName) (body : Body C V α) (w : Lookout (Call C V)) (n : Nat)
    (c : Call C V) : c.Yields m name body ((hooks m name body).trial m.options w n c) := by
  have hattempt := attempt_eq m name body c
  have hresult : ((hooks m name body).trial m.options w n c).result = (c.attempt m name body).1.1 := rfl
  have hflag : ((hooks m name body).trial m.options w n c).commitAttempted = (c.attempt m name body).1.2 := rfl
  unfold Yields
  rw [hresult, hflag, hattempt]
  cases h : (c.shared.store.start m.options).1 with
  | error e => exact ⟨rfl, rfl⟩
  | ok tx => exact ⟨FaultyRepository.commitAttempted_of_start h, rfl, rfl⟩

/-! ## How often the store is asked and the code runs -/

theorem along_silent_handle (tx : TxId) : (Shared.handle (C := C) (V := V) tx).Along Shared.Silent where
  commit s := ⟨FaultyRepository.started_commit s.store tx, rfl⟩
  rollback s := ⟨FaultyRepository.started_rollback s.store tx, rfl⟩
  report _ _ _ := ⟨rfl, rfl⟩

/-- Since the state `s`, the store has been asked `k` times, and the code has run in the given attempts. -/
structure Tally (mark : Attempt → V) (s : Shared C V) (k : Nat) (runs : List Attempt) (c : Call C V) : Prop where
  started : c.shared.store.calls.started = s.store.calls.started + k
  journal : c.shared.journal = s.journal ++ runs.map mark
  waiting : ∀ f ∈ (c.opened.map Prod.snd).getD [], ∀ s, Shared.Silent s (f s)

theorem started_releaseOpened (c : Call C V) :
    c.releaseOpened.shared.store.calls = c.shared.store.calls ∧ c.releaseOpened.shared.journal = c.shared.journal := by
  unfold releaseOpened
  cases c.opened <;> exact ⟨rfl, rfl⟩

variable {mark : Attempt → V} {s : Shared C V} {k : Nat} {runs : List Attempt} {c : Call C V}

theorem Tally.attempt {m : Manager} (name : TxName) {body : Body C V α} (hbody : body.Notes mark)
    (h : Tally mark s k runs c) :
    Tally mark s (k + 1) (runs ++ (c.run? m name).toList) (c.attempt m name body).2 := by
  have hstarted := c.shared.store.started_start m.options
  rw [h.started] at hstarted
  rw [attempt_eq]
  unfold run?
  cases (c.shared.store.start m.options).1 with
  | error e =>
    constructor
    · exact hstarted
    · show c.shared.journal = s.journal ++ (runs ++ []).map mark
      rw [List.append_nil, h.journal]
    · exact h.waiting
  | ok tx =>
    obtain ⟨hcalls, hjournal⟩ :=
      started_releaseOpened { c with shared := { c.shared with store := (c.shared.store.start m.options).2 } }
    have hrun := hbody (c.bodies + 1) { tx, name } (c.entered m)
    obtain ⟨hpath, hatEnd⟩ := TxHandle.along_attempt Shared.isPath_silent (along_silent_handle tx) m.options hrun
    constructor
    · refine hpath.started.trans ?_
      show (c.entered m).store.calls.started = _
      unfold entered
      show (releaseOpened _).shared.store.calls.started = _
      rw [hcalls, hstarted, Nat.add_assoc]
    · refine hpath.journal.trans ?_
      show (c.entered m).journal ++ [mark { tx, name }] = s.journal ++ (runs ++ [(⟨tx, name⟩ : Attempt)]).map mark
      unfold entered
      show (releaseOpened _).shared.journal ++ _ = _
      rw [hjournal, List.map_append, ← List.append_assoc, ← h.journal]
      rfl
    · exact hatEnd

omit [DecidableEq κ] in
theorem Tally.idles (h : Tally mark s k runs c) {c' : Call C V} (hc : Idles c c') : Tally mark s k runs c' := by
  obtain ⟨_, _, _, _, _, hshared⟩ := hc.shared
  refine ⟨?_, ?_, fun f hf => h.waiting f (hc.opened ▸ hf)⟩
  · rw [hshared]
    exact h.started
  · rw [hshared]
    exact h.journal

theorem Tally.finish (h : Tally mark s k runs c) :
    c.finish.store.calls.started = s.store.calls.started + k ∧ c.finish.journal = s.journal ++ runs.map mark := by
  have hcallbacks := TxHandle.along_runCallbacks Shared.isPath_silent h.waiting c.shared
  obtain ⟨hcalls, hjournal⟩ :=
    started_releaseOpened (c.mapShared (TxHandle.runCallbacks ((c.opened.map Prod.snd).getD [])))
  unfold Call.finish
  dsimp only
  rw [hcalls, hjournal]
  exact ⟨hcallbacks.started.trans h.started, hcallbacks.journal.trans h.journal⟩

end Call

namespace Manager

/-- The state of a call before the attempt after `k` others, whether or not it makes them all. -/
def stage (m : Manager) (site : CallSite) (body : Body C V α) (s : Shared C V) (k : Nat) : Call C V :=
  (Call.hooks m (m.nameAt site) body).before m.options 1 (m.begin site ((m.admit? site s).getD s)) k

/-- The state of a call when the attempt after `k` others has come to its end. -/
def ended (m : Manager) (site : CallSite) (body : Body C V α) (s : Shared C V) (k : Nat) : Call C V :=
  (Call.hooks m (m.nameAt site) body).wait m.options (k + 1) (m.stage site body s k)

/-- What the attempt after `k` others comes to. -/
def trial (m : Manager) (site : CallSite) (body : Body C V α) (s : Shared C V) (k : Nat) : Trial α :=
  (Call.hooks m (m.nameAt site) body).trial m.options (Call.lookout m) (k + 1) (m.stage site body s k)

/-- The attempts in which the code runs, of the first `k`. -/
def runs (m : Manager) (site : CallSite) (body : Body C V α) (s : Shared C V) (k : Nat) : List Attempt :=
  (List.range k).filterMap (fun j => (m.stage site body s j).run? m (m.nameAt site))

theorem idles_stage_succ (m : Manager) (site : CallSite) (body : Body C V α) (s : Shared C V) (k : Nat) :
    (m.ended site body s k).Idles (m.stage site body s (k + 1)) := by
  have hstage : m.stage site body s (k + 1) =
      (Call.hooks m (m.nameAt site) body).waited m.options (k + 1) (m.stage site body s k) := by
    unfold stage
    rw [RetryHooks.before_succ, Nat.add_comm 1 k]
  rw [hstage]
  exact Call.idles_waited ..

theorem reports_ended (m : Manager) (site : CallSite) (body : Body C V α) (s : Shared C V) (k : Nat) :
    ((m.stage site body s k).attempt m (m.nameAt site) body).2.Reports (m.ended site body s k) :=
  Call.reports_wait ..

theorem runs_succ (m : Manager) (site : CallSite) (body : Body C V α) (s : Shared C V) (k : Nat) :
    m.runs site body s (k + 1) =
      m.runs site body s k ++ ((m.stage site body s k).run? m (m.nameAt site)).toList := by
  unfold runs
  rw [List.range_succ, List.filterMap_append]
  rfl

theorem tally_stage (m : Manager) (site : CallSite) {body : Body C V α} {mark : Attempt → V} (hbody : body.Notes mark)
    (s : Shared C V) (k : Nat) :
    Call.Tally mark ((m.admit? site s).getD s) k (m.runs site body s k) (m.stage site body s k) := by
  induction k with
  | zero => exact ⟨rfl, (List.append_nil _).symm, nofun⟩
  | succ k ih =>
    rw [runs_succ]
    exact ((ih.attempt (m.nameAt site) hbody).idles (m.reports_ended ..).idles).idles (m.idles_stage_succ ..)

theorem tally_ended (m : Manager) (site : CallSite) {body : Body C V α} {mark : Attempt → V} (hbody : body.Notes mark)
    (s : Shared C V) (k : Nat) :
    Call.Tally mark ((m.admit? site s).getD s) (k + 1) (m.runs site body s (k + 1)) (m.ended site body s k) := by
  rw [runs_succ]
  exact ((m.tally_stage site hbody s k).attempt (m.nameAt site) hbody).idles (m.reports_ended ..).idles

theorem tx_of_not_strict {m : Manager} {s : Shared C V} (h : s.inTransaction = true → m.separatePolicy ≠ .strict)
    (site : CallSite) (body : Body C V α) :
    let s' := (m.admit? site s).getD s
    m.tx site body s = m.call (m.nameAt site) body s' ∧ s'.store = s.store ∧ s'.journal = s.journal := by
  unfold tx admit?
  split
  · rename_i hin
    cases hp : m.separatePolicy with
    | strict => exact absurd hp (h hin)
    | allow => exact ⟨rfl, rfl, rfl⟩
    | log => exact ⟨rfl, rfl, rfl⟩
  · exact ⟨rfl, rfl, rfl⟩

/-- A call that is let through ends with an attempt, and only waits and reports before it runs what is left for the
end. -/
theorem call_ends (m : Manager) (site : CallSite) (body : Body C V α) (s : Shared C V) :
    let r := m.call (m.nameAt site) body ((m.admit? site s).getD s)
    ∃ k < m.maxAttempts, ∃ hangs c,
      (∀ j < k, ∀ result hangs, ¬ (m.trial site body s j).Ends m.options m.maxAttempts (j + 1) result hangs) ∧
      (m.trial site body s k).Ends m.options m.maxAttempts (k + 1) r.1 hangs ∧
      c.shared.hung = ((m.ended site body s k).shared.hung || hangs) ∧
      (m.ended site body s k).Idles c ∧ r.2 = (c.finish.mapStats TxStats.recordCall).closeSpan := by
  obtain ⟨k, hk, hangs, hends⟩ := RetryHooks.loop_ends Call.isPath_idles
    (Call.idles_hooks m (m.nameAt site) body) (Call.heeds_hooks m (m.nameAt site) body)
    (o := m.options) m.retries 1 (m.begin site ((m.admit? site s).getD s))
  have hmax : 1 + m.retries = m.maxAttempts := Nat.add_comm ..
  have hnumber : ∀ j, 1 + j = j + 1 := fun j => Nat.add_comm ..
  simp only [hmax, hnumber] at hends
  obtain ⟨hbefore, hlast, hhung, hidles⟩ := hends
  exact ⟨k, Nat.lt_succ_of_le hk, hangs, _, hbefore, hlast, hhung, hidles, rfl⟩

/-- **A call comes to the result of the first attempt that stops it.**  It makes no attempt after that one: what is
left to do is to report, to run the callbacks for the end of the call and to let go of the last transaction.  Or it makes
no attempt after one because the wait for another never ends, which is marked; then the call does not return.  In either
case the store has been asked for a transaction once for each attempt, and the code has run once in each transaction that
was opened. -/
theorem tx_stops (m : Manager) (site : CallSite) (body : Body C V α) (s : Shared C V)
    (h : s.inTransaction = true → m.separatePolicy ≠ .strict) :
    ∃ k < m.maxAttempts, ∃ hangs c,
      (∀ j, (m.stage site body s j).Yields m (m.nameAt site) body (m.trial site body s j)) ∧
      (∀ j < k, ∀ result hangs, ¬ (m.trial site body s j).Ends m.options m.maxAttempts (j + 1) result hangs) ∧
      (m.trial site body s k).Ends m.options m.maxAttempts (k + 1) (m.tx site body s).1 hangs ∧
      c.shared.hung = ((m.ended site body s k).shared.hung || hangs) ∧ (m.ended site body s k).Idles c ∧
      (m.tx site body s).2 = (c.finish.mapStats TxStats.recordCall).closeSpan ∧
      ∀ mark, body.Notes mark → ∀ s' ∈ [c.shared, (m.tx site body s).2],
        s'.store.calls.started = s.store.calls.started + (k + 1) ∧
          s'.journal = s.journal ++ (m.runs site body s (k + 1)).map mark := by
  obtain ⟨htx, hstore, hjournal⟩ := tx_of_not_strict h site body
  obtain ⟨k, hk, hangs, c, hbefore, hends, hhung, hidles, hstate⟩ := m.call_ends site body s
  rw [htx]
  refine ⟨k, hk, hangs, c, fun j => Call.yields_trial .., hbefore, hends, hhung, hidles, hstate, ?_⟩
  intro mark hbody
  have htally := (m.tally_ended site hbody s k).idles hidles
  have hfinish := htally.finish
  rw [hstore, hjournal] at hfinish
  simp only [List.forall_mem_cons]
  refine ⟨⟨?_, ?_⟩, ?_, nofun⟩
  · exact hstore ▸ htally.started
  · exact hjournal ▸ htally.journal
  · rw [hstate]
    exact hfinish

end Manager

namespace Sample

/-- A store that fails once to start a transaction, and then loses the answer to a commit. -/
def losing : Shared (catalog "sample") TxId where
  store := { faults := {
    start := [.retryable "busy" "no connection" .immediate]
    commit := [.conditionallyRetryable "lost" "no answer" .immediate] } }

/-- A manager that makes three attempts at most. -/
def patient : Manager := { retries := 2, token := ⟨0⟩ }

/-- Code that notes its transaction. -/
def noting : Body (catalog "sample") TxId Nat :=
  fun n a s => { result := .ok n, state := s.note a.tx, rounds := .done }

end Sample

open Sample in
theorem Manager.tx_stops_after_lost_answer :
    let site : CallSite := ⟨"sample", 1⟩
    let failure : Error := .unavailable "Conditional retries not attempted" false
      (.conditionallyRetryable "lost" "no answer" .immediate)
    (losing.inTransaction = true → patient.separatePolicy ≠ .strict) ∧
      (patient.tx site noting losing).1 = .error failure ∧
      (∀ result hangs, ¬ (patient.trial site noting losing 0).Ends patient.options 3 1 result hangs) ∧
      (patient.trial site noting losing 1).Ends patient.options 3 2 (.error failure) false ∧
      (patient.tx site noting losing).2.store.calls.started = 2 ∧
        (patient.tx site noting losing).2.journal = (patient.runs site noting losing 2).map Attempt.tx := by
  intro site failure
  have hidle : losing.inTransaction = true → patient.separatePolicy ≠ .strict := by decide
  have hnotes : noting.Notes Attempt.tx := fun n a s => Outcome.along_done (Shared.isPath_silent.refl _) _
  have hresult : (patient.tx site noting losing).1 = .error failure := by decide +kernel
  have hcalls : (patient.tx site noting losing).2.store.calls.started = 2 := by decide +kernel
  obtain ⟨k, -, hangs, c, -, hbefore, hends, -, -, -, htally⟩ := patient.tx_stops site noting losing hidle
  obtain ⟨hstarted, hjournal⟩ := htally Attempt.tx hnotes _ (List.mem_cons_of_mem _ List.mem_cons_self)
  have hk : k = 1 := by
    rw [hcalls] at hstarted
    have hnone : losing.store.calls.started = 0 := rfl
    omega
  subst hk
  have hreaches : ∀ d, (patient.trial site noting losing 1).during.reaches d = true := fun d => rfl
  have hends : (patient.trial site noting losing 1).Ends patient.options 3 2 (.error failure) hangs := hresult ▸ hends
  obtain rfl : hangs = false := by
    cases hends with
    | stops h => rfl
    | hangs h e =>
      obtain ⟨_, -, -, -, -, -, -, hendless⟩ := h
      rw [hreaches] at hendless
      cases hendless
  exact ⟨hidle, hresult, hbefore 0 (by decide), hends, hcalls, hjournal⟩

namespace Sample

/-- A store that fails once to start a transaction. -/
def busy (during : Meanwhile) : Shared (catalog "sample") TxId where
  store := { faults := { start := [.retryable "busy" "no connection" .immediate] } }
  tokens := ⟨[false]⟩
  waits := [during]

/-- Code that makes a call of its own. -/
def calling : Body (catalog "sample") TxId Nat := fun _ _ s =>
  let inner := patient.tx ⟨"inner", 2⟩ noting s
  { result := inner.1, state := inner.2, rounds := .done }

end Sample

open Sample in
/-- The rule cannot do without the wait and without the code.  After a failure to start, with two attempts left and a
token that is not cancelled when the wait begins, a call is interrupted if it is cancelled while it waits, and hangs if
its wait is longer than the clock reaches; neither makes a second attempt.  And a call that succeeds with its first
attempt has asked the store twice, if its code makes a call of its own. -/
theorem Manager.stops_while_waiting :
    let site : CallSite := ⟨"sample", 1⟩
    let failure : Error := .retryable "busy" "no connection" .immediate
    let cancelled := busy { cancelled := true }
    let far := busy { reaches := fun _ => false }
    failure.isRetryable = true ∧ failure.kind ≠ .conditionallyRetryable ∧ patient.maxAttempts = 3 ∧
      ((patient.trial site noting cancelled 0).result = .error failure ∧
        (patient.trial site noting cancelled 0).cancelled = false ∧
        (patient.tx site noting cancelled).1 = .error (.interrupted "DB query interrupted") ∧
        (patient.tx site noting cancelled).2.store.calls.started = 1) ∧
      ((patient.trial site noting far 0).result = .error failure ∧ (patient.trial site noting far 0).cancelled = false ∧
        (patient.tx site noting far).2.hung = true ∧ (patient.tx site noting far).2.store.calls.started = 1) ∧
      (patient.tx site calling {}).1 = .ok 1 ∧ (patient.tx site calling {}).2.store.calls.started = 2 := by
  decide +kernel

end EntityStore
