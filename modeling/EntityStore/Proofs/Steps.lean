import EntityStore.Tx.Attempt
import EntityStore.Tx.Retry
/-!
# What code and its callbacks keep

`Step.Along R` says that all that the code of an attempt does goes along with a relation `R` between states: the code
itself, the callbacks before the commit, whatever these register in turn, and the callbacks that are left for later.
It is enough to know the code in order to know all that runs (`Step.Along.runAll`).  `TxHandle.attempt_cases` puts an
attempt together from what its code does and from the one commit or rollback that it ends in, and `RetryHooks.round`
tells what a loop makes of an attempt.
-/
namespace EntityStore

variable {α σ : Type}

/-- A relation between states that holds of no step and of one step after another. -/
structure IsPath (R : σ → σ → Prop) : Prop where
  refl : ∀ s, R s s
  trans : ∀ {a b c : σ}, R a b → R b c → R a c

/-- All callbacks that are left for later go along with `R`. -/
structure Later.Along (R : σ → σ → Prop) (l : Later σ) : Prop where
  afterCommit : ∀ f ∈ l.afterCommit, ∀ s, R s (f s)
  atEnd : ∀ f ∈ l.atEnd, ∀ s, R s (f s)

/-- All callbacks before the commit go along with `R`, and all that they register. -/
inductive Rounds.Along (R : σ → σ → Prop) : Rounds σ → Prop
  | done : Along R .done
  | round (run : Step Unit σ) (state : ∀ s, R s (run s).state) (later : ∀ s, (run s).later.Along R)
      (rounds : ∀ s, Along R (run s).rounds) : Along R (.round run)

/-- What code has done from the state `s` goes along with `R`, and so does all that it has put off. -/
structure Outcome.Along (R : σ → σ → Prop) (s : σ) (o : Outcome α σ (Rounds σ)) : Prop where
  state : R s o.state
  later : o.later.Along R
  rounds : o.rounds.Along R

/-- Code that goes along with `R` from every state. -/
def Step.Along (R : σ → σ → Prop) (body : Step α σ) : Prop := ∀ s, (body s).Along R s

section

variable {R : σ → σ → Prop}

theorem Later.along_empty : ({} : Later σ).Along R := ⟨nofun, nofun⟩

theorem Later.Along.append {a b : Later σ} (ha : a.Along R) (hb : b.Along R) : (a.append b).Along R where
  afterCommit f hf := (List.mem_append.1 hf).elim (ha.afterCommit f) (hb.afterCommit f)
  atEnd f hf := (List.mem_append.1 hf).elim (ha.atEnd f) (hb.atEnd f)

theorem Outcome.along_done {s s' : σ} (h : R s s') (result : Except Error α) :
    Outcome.Along R s { result, state := s', rounds := .done } := ⟨h, Later.along_empty, .done⟩

theorem Rounds.along_round {f : Step Unit σ} (h : f.Along R) : (Rounds.round f).Along R :=
  .round f (fun s => (h s).state) (fun s => (h s).later) (fun s => (h s).rounds)

theorem Outcome.Along.after (hR : IsPath R) {s s' : σ} {o : Outcome α σ (Rounds σ)} (h : o.Along R s') (hs : R s s') :
    o.Along R s := ⟨hR.trans hs h.state, h.later, h.rounds⟩

theorem Rounds.Along.append (hR : IsPath R) {a b : Rounds σ} (ha : a.Along R) (hb : b.Along R) :
    (a.append b).Along R := by
  induction ha generalizing b with
  | done => exact hb
  | round run state later rounds ih =>
    cases hb with
    | done => exact .round run state later rounds
    | round run' state' later' rounds' =>
      have hstep : ∀ s, (appendOutcome (run s) run').Along R s := by
        intro s
        have hstate := state s
        have hlater := later s
        have hrounds := rounds s
        have hih := fun b (hb : b.Along R) => ih s (b := b) hb
        generalize run s = o at hstate hlater hrounds hih
        obtain ⟨result, s', l, rs⟩ := o
        cases result with
        | error e => exact ⟨hstate, hlater, hrounds⟩
        | ok u => exact ⟨hR.trans hstate (state' s'), hlater.append (later' s'), hih _ (rounds' s')⟩
      exact along_round hstep

theorem Rounds.Along.run (hR : IsPath R) {a : Rounds σ} (ha : a.Along R) (s : σ) :
    R s (a.run s).state ∧ (a.run s).later.Along R := by
  induction ha generalizing s with
  | done => exact ⟨hR.refl s, Later.along_empty⟩
  | round f state later rounds ih =>
    have hstate := state s
    have hlater := later s
    have hih := ih s
    show R s (runOutcome (f s)).state ∧ (runOutcome (f s)).later.Along R
    generalize f s = o at hstate hlater hih
    obtain ⟨result, s', l, rs⟩ := o
    cases result with
    | error e => exact ⟨hstate, hlater⟩
    | ok u =>
      obtain ⟨hrest, hl⟩ := hih s'
      exact ⟨hR.trans hstate hrest, hlater.append hl⟩

/-- **All that runs before the end of an attempt goes along with what its code does.** -/
theorem Outcome.Along.runAll (hR : IsPath R) {body : Step α σ} {s₀ s : σ} (h : (body s).Along R s₀) :
    R s₀ (body.runAll s).state ∧ (body.runAll s).later.Along R := by
  obtain ⟨hstate, hlater, hrounds⟩ := h
  unfold Step.runAll
  dsimp only
  cases (body s).result with
  | error e => exact ⟨hstate, hlater⟩
  | ok a =>
    obtain ⟨hrest, hl⟩ := hrounds.run hR (body s).state
    exact ⟨hR.trans hstate hrest, hlater.append hl⟩

theorem TxHandle.along_runCallbacks (hR : IsPath R) : ∀ {callbacks : List (σ → σ)},
    (∀ f ∈ callbacks, ∀ s, R s (f s)) → ∀ s, R s (TxHandle.runCallbacks callbacks s)
  | [], _, s => hR.refl s
  | f :: _, h, s => hR.trans (h f List.mem_cons_self s)
      (TxHandle.along_runCallbacks hR (fun g hg => h g (List.mem_cons_of_mem f hg)) (f s))

end

/-- **An attempt ends in a rollback after an error, in that of a dry run, or in a commit.** -/
theorem TxHandle.attempt_cases (p : TxHandle σ) (o : TxOptions) (body : Step α σ) (s : σ) :
    let ran := body.runAll s
    (∃ e, ran.result = .error e ∧ p.attempt o body s =
      ⟨.error (p.rollbackAfter e ran.state).1, (p.rollbackAfter e ran.state).2, ran.later.atEnd⟩) ∨
    (∃ a, ran.result = .ok a ∧ o.dryRun = true ∧ p.attempt o body s =
      ⟨(p.rollbackDryRun ran.state).1.map (fun _ => a), (p.rollbackDryRun ran.state).2, ran.later.atEnd⟩) ∨
    (∃ e, o.dryRun = false ∧ (p.commitNow o.logOnSuccess ran.state).1 = .error e ∧ p.attempt o body s =
      ⟨.error e, (p.commitNow o.logOnSuccess ran.state).2, ran.later.atEnd⟩) ∨
    (∃ a, o.dryRun = false ∧ (p.commitNow o.logOnSuccess ran.state).1 = .ok () ∧ p.attempt o body s =
      ⟨.ok a, runCallbacks ran.later.afterCommit (p.commitNow o.logOnSuccess ran.state).2, ran.later.atEnd⟩) := by
  unfold attempt
  dsimp only
  generalize body.runAll s = ran
  cases ran.result with
  | error e => exact .inl ⟨e, rfl, rfl⟩
  | ok a =>
    cases o.dryRun with
    | true => exact .inr (.inl ⟨a, rfl, rfl, rfl⟩)
    | false =>
      refine .inr (.inr ?_)
      dsimp only
      rw [if_neg Bool.false_ne_true]
      generalize p.commitNow o.logOnSuccess ran.state = r
      obtain ⟨answer, s'⟩ := r
      cases answer with
      | error e => exact .inl ⟨e, rfl, rfl, rfl⟩
      | ok u => exact .inr ⟨a, rfl, rfl, rfl⟩

/-- What an attempt does to its transaction goes along with `R`. -/
structure TxHandle.Along (R : σ → σ → Prop) (p : TxHandle σ) : Prop where
  commit : ∀ s, R s (p.commit s).2
  rollback : ∀ s, R s (p.rollback s).2
  report : ∀ severity message s, R s (p.report severity message s)

namespace TxHandle

variable {R : σ → σ → Prop} {p : TxHandle σ}

theorem along_rollbackAfter (hR : IsPath R) (hp : p.Along R) (e : Error) (s : σ) : R s (p.rollbackAfter e s).2 := by
  unfold rollbackAfter
  generalize hs : p.reportLog s!"Rollback due to {e.message}" "! " s = reported
  have h : R s (p.rollback reported).2 := hR.trans (hs ▸ hp.report ..) (hp.rollback reported)
  generalize p.rollback reported = r at h
  obtain ⟨result, s'⟩ := r
  cases result with
  | error failure =>
    dsimp only
    split <;> exact hR.trans h (hp.report ..)
  | ok u => exact h

theorem along_rollbackDryRun (hR : IsPath R) (hp : p.Along R) (s : σ) : R s (p.rollbackDryRun s).2 := by
  unfold rollbackDryRun
  have h := hp.rollback s
  generalize p.rollback s = r at h
  obtain ⟨result, s'⟩ := r
  cases result with
  | error failure =>
    dsimp only
    split <;> exact hR.trans h (hp.report ..)
  | ok u => exact hR.trans h (hp.report ..)

theorem along_commitNow (hR : IsPath R) (hp : p.Along R) (logOnSuccess : Bool) (s : σ) :
    R s (p.commitNow logOnSuccess s).2 := by
  unfold commitNow
  have h := hp.commit s
  generalize p.commit s = r at h
  obtain ⟨result, s'⟩ := r
  cases result with
  | error e => exact hR.trans h (hp.report ..)
  | ok u =>
    dsimp only
    split
    · exact hR.trans h (hp.report ..)
    · exact h

/-- **An attempt goes along with what its code and its transaction do.** -/
theorem along_attempt (hR : IsPath R) (hp : p.Along R) (o : TxOptions) {body : Step α σ} {s₀ s : σ}
    (hbody : (body s).Along R s₀) :
    R s₀ (p.attempt o body s).state ∧ ∀ f ∈ (p.attempt o body s).atEnd, ∀ s, R s (f s) := by
  obtain ⟨hran, hlater⟩ := hbody.runAll hR
  rcases p.attempt_cases o body s with ⟨e, -, h⟩ | ⟨a, -, -, h⟩ | ⟨e, -, -, h⟩ | ⟨a, -, -, h⟩
  · rw [h]
    exact ⟨hR.trans hran (along_rollbackAfter hR hp e _), hlater.atEnd⟩
  · rw [h]
    exact ⟨hR.trans hran (along_rollbackDryRun hR hp _), hlater.atEnd⟩
  · rw [h]
    exact ⟨hR.trans hran (along_commitNow hR hp o.logOnSuccess _), hlater.atEnd⟩
  · rw [h]
    have hcommitted := hR.trans hran (along_commitNow hR hp o.logOnSuccess _)
    exact ⟨hR.trans hcommitted (along_runCallbacks hR hlater.afterCommit _), hlater.atEnd⟩

end TxHandle

/-! ## Attempts until one counts -/

namespace RetryHooks

/-- The states before the attempts of a loop. -/
def trail (p : RetryHooks α σ) (o : TxOptions) : (left n : Nat) → σ → List σ
  | left, n, s =>
    s :: match p.attempt s with
      | ((.ok _, _), _) => []
      | ((.error e, commitAttempted), s) =>
        let verdict := Verdict.of o commitAttempted e
        let s := p.failed n verdict e s
        match verdict, left with
        | .again, left + 1 =>
          match p.sleep (delayAfter n e) s with
          | (.error _, _) => []
          | (.ok (), s) => p.trail o left (n + 1) s
        | _, _ => []
termination_by structural left => left

/-- All that happens beside the attempts goes along with `R`. -/
structure Along (p : RetryHooks α σ) (R : σ → σ → Prop) : Prop where
  succeeded : ∀ n s, R s (p.succeeded n s)
  failed : ∀ n verdict e s, R s (p.failed n verdict e s)
  slept : ∀ delay s, R s (p.sleep delay s).2
  interrupted : ∀ n e s, R s (p.interrupted n e s)
  exhausted : ∀ n e s, R s (p.exhausted n e s)

theorem Along.mono {p : RetryHooks α σ} {R R' : σ → σ → Prop} (hp : p.Along R) (h : ∀ {a b}, R a b → R' a b) :
    p.Along R' where
  succeeded n s := h (hp.succeeded n s)
  failed n verdict e s := h (hp.failed n verdict e s)
  slept delay s := h (hp.slept delay s)
  interrupted n e s := h (hp.interrupted n e s)
  exhausted n e s := h (hp.exhausted n e s)

/-- What a loop makes of its first attempt: it ends after it, or goes on from the state after the wait. -/
inductive Round (p : RetryHooks α σ) (o : TxOptions) (left n : Nat) (s : σ) : Prop
  | succeeded {a : α} {flag : Bool} {s₁ : σ} (hmade : p.attempt s = ((.ok a, flag), s₁))
      (hloop : p.loop o left n s = (.ok a, p.succeeded n s₁)) (htrail : p.trail o left n s = [s])
  | fatal {e : Error} {flag : Bool} {s₁ : σ} (hmade : p.attempt s = ((.error e, flag), s₁))
      (hverdict : Verdict.of o flag e = .fatal) (hloop : p.loop o left n s = (.error e, p.failed n .fatal e s₁))
      (htrail : p.trail o left n s = [s])
  | refused {e : Error} {flag : Bool} {s₁ : σ} (hmade : p.attempt s = ((.error e, flag), s₁))
      (hverdict : Verdict.of o flag e = .refused)
      (hloop : p.loop o left n s = (.error e.failImmediately, p.failed n .refused e s₁))
      (htrail : p.trail o left n s = [s])
  | exhausted {e : Error} {flag : Bool} {s₁ : σ} (hmade : p.attempt s = ((.error e, flag), s₁))
      (hverdict : Verdict.of o flag e = .again) (hleft : left = 0)
      (hloop : p.loop o left n s = (.error e.rethrow, p.exhausted n e (p.failed n .again e s₁)))
      (htrail : p.trail o left n s = [s])
  | interrupted {e interruption : Error} {flag : Bool} {s₁ s₂ : σ} {left' : Nat}
      (hmade : p.attempt s = ((.error e, flag), s₁)) (hverdict : Verdict.of o flag e = .again) (hleft : left = left' + 1)
      (hsleep : p.sleep (delayAfter n e) (p.failed n .again e s₁) = (.error interruption, s₂))
      (hloop : p.loop o left n s = (.error interruption, p.interrupted n e s₂)) (htrail : p.trail o left n s = [s])
  | continues {e : Error} {flag : Bool} {s₁ s₂ : σ} {left' : Nat} (hmade : p.attempt s = ((.error e, flag), s₁))
      (hverdict : Verdict.of o flag e = .again) (hleft : left = left' + 1)
      (hsleep : p.sleep (delayAfter n e) (p.failed n .again e s₁) = (.ok (), s₂))
      (hloop : p.loop o left n s = p.loop o left' (n + 1) s₂)
      (htrail : p.trail o left n s = s :: p.trail o left' (n + 1) s₂)

/-- The one place where the loop is taken apart. -/
theorem round (p : RetryHooks α σ) (o : TxOptions) (left n : Nat) (s : σ) : p.Round o left n s := by
  have hloop := loop.eq_1 p o left n s
  have htrail := trail.eq_1 p o left n s
  obtain ⟨⟨⟨result, flag⟩, s₁⟩, hmade⟩ : ∃ r, p.attempt s = r := ⟨_, rfl⟩
  rw [hmade] at hloop htrail
  cases result with
  | ok a => exact .succeeded hmade hloop htrail
  | error e =>
    dsimp only at hloop htrail
    cases hverdict : Verdict.of o flag e with
    | fatal =>
      rw [hverdict] at hloop htrail
      exact .fatal hmade hverdict hloop htrail
    | refused =>
      rw [hverdict] at hloop htrail
      exact .refused hmade hverdict hloop htrail
    | again =>
      rw [hverdict] at hloop htrail
      cases left with
      | zero => exact .exhausted hmade hverdict rfl hloop htrail
      | succ left =>
        obtain ⟨⟨answer, s₂⟩, hsleep⟩ : ∃ r, p.sleep (delayAfter n e) (p.failed n .again e s₁) = r := ⟨_, rfl⟩
        dsimp only at hloop htrail
        rw [hsleep] at hloop htrail
        cases answer with
        | error interruption => exact .interrupted hmade hverdict rfl hsleep hloop htrail
        | ok u => exact .continues hmade hverdict rfl hsleep hloop htrail

/-- **A loop ends after an attempt, with a result that is as good as that of the attempt, or goes on.** -/
theorem loop_cases {p : RetryHooks α σ} {R : σ → σ → Prop} (hR : IsPath R) (hp : p.Along R) (o : TxOptions)
    (left n : Nat) (s : σ) :
    (∃ result s', p.loop o left n s = (result, s') ∧ p.trail o left n s = [s] ∧ R (p.attempt s).2 s' ∧
      result.toOption = (p.attempt s).1.1.toOption) ∨
    ∃ e left' s', left = left' + 1 ∧ (p.attempt s).1.1 = .error e ∧ R (p.attempt s).2 s' ∧
      p.loop o left n s = p.loop o left' (n + 1) s' ∧ p.trail o left n s = s :: p.trail o left' (n + 1) s' := by
  have hslept : ∀ {e : Error} {s₁ s₂ : σ} {answer : Except Error Unit},
      p.sleep (delayAfter n e) (p.failed n .again e s₁) = (answer, s₂) → R s₁ s₂ := by
    intro e s₁ s₂ answer hsleep
    have h := hR.trans (hp.failed n .again e s₁) (hp.slept (delayAfter n e) _)
    rwa [hsleep] at h
  cases p.round o left n s with
  | succeeded hmade hloop htrail =>
    rw [hmade]
    exact .inl ⟨_, _, hloop, htrail, hp.succeeded .., rfl⟩
  | fatal hmade _ hloop htrail =>
    rw [hmade]
    exact .inl ⟨_, _, hloop, htrail, hp.failed .., rfl⟩
  | refused hmade _ hloop htrail =>
    rw [hmade]
    exact .inl ⟨_, _, hloop, htrail, hp.failed .., rfl⟩
  | exhausted hmade _ _ hloop htrail =>
    rw [hmade]
    exact .inl ⟨_, _, hloop, htrail, hR.trans (hp.failed ..) (hp.exhausted ..), rfl⟩
  | interrupted hmade _ _ hsleep hloop htrail =>
    rw [hmade]
    exact .inl ⟨_, _, hloop, htrail, hR.trans (hslept hsleep) (hp.interrupted ..), rfl⟩
  | continues hmade _ hleft hsleep hloop htrail =>
    rw [hmade]
    exact .inr ⟨_, _, _, hleft, rfl, hslept hsleep, hloop, htrail⟩

/-- **A loop goes along with what its attempts do.** -/
theorem along_loop {p : RetryHooks α σ} {R : σ → σ → Prop} (hR : IsPath R) (hp : p.Along R)
    (hattempt : ∀ s, R s (p.attempt s).2) (o : TxOptions) (left n : Nat) (s : σ) : R s (p.loop o left n s).2 := by
  induction left using Nat.strongRecOn generalizing n s with
  | _ left ih =>
  rcases p.loop_cases hR hp o left n s with ⟨result, s', hloop, -, hs, -⟩ | ⟨e, left', s', rfl, -, hs, hloop, -⟩
  · rw [hloop]
    exact hR.trans (hattempt s) hs
  · rw [hloop]
    exact hR.trans (hR.trans (hattempt s) hs) (ih left' (Nat.lt_succ_self left') (n + 1) s')

end RetryHooks

end EntityStore
