import EntityStore.Proofs.Programs
import EntityStore.Samples.Catalog
/-!
# What runs before an attempt ends, and how it ends

Callbacks before the commit wait in a queue, which grows while it is served.  An attempt takes all that is waiting at
one time and runs that before it looks at what was registered meanwhile; `Callbacks.Serves` is the queue itself, whose
first callback runs first and puts what it registers behind all others.  The two agree (`Callbacks.Serves.run_eq` and
`Callbacks.exists_serves`), and whatever has run is the beginning of the list of all registrations
(`Callbacks.Serves.order`).  When the code has come to its end, with or without an error, the attempt closes its
transaction in one call (`TxHandle.closes_once`).
-/
namespace EntityStore

variable {X : Scalars}

/-! ## A queue of callbacks -/

namespace Rounds

variable {σ : Type}

theorem induction {P : Rounds σ → Prop} (done : P .done)
    (round : ∀ f : Step Unit σ, (∀ s, P (f s).rounds) → P (.round f)) (r : Rounds σ) : P r :=
  Rounds.rec (motive_1 := P) (motive_2 := fun o => P o.rounds) done round (fun _ _ _ _ h => h) r

theorem appendOutcome_assoc (o : Outcome Unit σ (Rounds σ)) (g h : Step Unit σ)
    (happend : ∀ b c, (o.rounds.append b).append c = o.rounds.append (b.append c)) :
    appendOutcome (appendOutcome o g) h = appendOutcome o (fun s => appendOutcome (g s) h) := by
  obtain ⟨result, s, later, rounds⟩ := o
  cases result with
  | error e => rfl
  | ok u =>
    have hfirst : ∀ run' : Step Unit σ, appendOutcome ⟨.ok u, s, later, rounds⟩ run' =
      ⟨(run' s).result, (run' s).state, later.append (run' s).later, append rounds (run' s).rounds⟩ := fun _ => rfl
    rw [hfirst, hfirst]
    generalize g s = o
    obtain ⟨result, s', later', rounds'⟩ := o
    cases result with
    | error e => rfl
    | ok u =>
      simp only [appendOutcome, Later.append_assoc]
      rw [happend]

theorem append_assoc (a b c : Rounds σ) : (a.append b).append c = a.append (b.append c) := by
  induction a using Rounds.induction generalizing b c with
  | done => rfl
  | round f ih =>
    cases b with
    | done => rfl
    | round g =>
      cases c with
      | done => simp
      | round h => exact congrArg Rounds.round (funext fun s => appendOutcome_assoc (f s) g h (ih s))

/-- The callbacks that wait in the order of a list. -/
def ofList (fs : List (Step Unit σ)) : Rounds σ := fs.foldr (fun f rest => (Rounds.round f).append rest) .done

theorem ofList_append (fs gs : List (Step Unit σ)) : ofList (fs ++ gs) = (ofList fs).append (ofList gs) := by
  induction fs with
  | nil => rfl
  | cons f fs ih =>
    show (Rounds.round f).append (ofList (fs ++ gs)) = ((Rounds.round f).append (ofList fs)).append (ofList gs)
    rw [ih, append_assoc]

end Rounds

/-- Callbacks before the commit, with an account of what each of them registers. -/
structure Callbacks (F σ : Type) where
  run : F → Step Unit σ
  /-- The callbacks before the commit that one registers, in order, when it runs in a given state. -/
  registers : F → σ → List F
  rounds_run : ∀ f s, (run f s).rounds = .ofList ((registers f s).map run)

namespace Callbacks

variable {F σ α : Type} (cb : Callbacks F σ)

/-- The callbacks in the given order, as an attempt holds them. -/
def waiting (queue : List F) : Rounds σ := .ofList (queue.map cb.run)

/-- Serving a queue from a state: which callbacks run and on which states, up to the first error, what they come to,
and the state that the last one leaves.  Each puts what it registers behind all that is waiting. -/
inductive Serves : List F → σ → List (F × σ) → Except Error Unit → σ → Prop
  | nil (s : σ) : Serves [] s [] (.ok ()) s
  | error {f : F} {s : σ} {e : Error} (queue : List F) (h : (cb.run f s).result = .error e) :
      Serves (f :: queue) s [(f, s)] (.error e) (cb.run f s).state
  | next {f : F} {s s' : σ} {queue : List F} {ran : List (F × σ)} {result : Except Error Unit}
      (h : (cb.run f s).result = .ok ())
      (hrest : Serves (queue ++ cb.registers f s) (cb.run f s).state ran result s') :
      Serves (f :: queue) s ((f, s) :: ran) result s'

variable {cb} {queue : List F} {s s' : σ} {ran : List (F × σ)} {result : Except Error Unit}

theorem waiting_append (queue queue' : List F) :
    cb.waiting (queue ++ queue') = (cb.waiting queue).append (cb.waiting queue') := by
  unfold waiting
  rw [List.map_append, Rounds.ofList_append]

/-- **Taking all that is waiting at a time serves the queue.** -/
theorem Serves.run_eq (h : cb.Serves queue s ran result s') :
    ((cb.waiting queue).run s).result = result ∧ ((cb.waiting queue).run s).state = s' := by
  have hcons : ∀ f queue s, (cb.waiting (f :: queue)).run s = Rounds.resume (cb.run f s) (cb.waiting queue).append :=
    fun f queue s => Rounds.run_append_round (cb.run f) (cb.waiting queue) s
  induction h with
  | nil s => exact ⟨rfl, rfl⟩
  | error queue h =>
    rw [hcons, Rounds.resume, h]
    exact ⟨rfl, rfl⟩
  | @next f s s' queue ran result h hrest ih =>
    rw [waiting_append] at ih
    rw [hcons, Rounds.resume, h, cb.rounds_run f s]
    exact ih

/-- **Callbacks run in the order of registration**: those that have run are the first ones of all that were registered,
by the code and then by one callback after another, and without an error none is left. -/
theorem Serves.order (h : cb.Serves queue s ran result s') : ∃ left : List F,
    ran.map Prod.fst ++ left = queue ++ ran.flatMap (fun x => cb.registers x.1 x.2) ∧
      (result = .ok () → left = []) := by
  induction h with
  | nil s => exact ⟨[], rfl, fun _ => rfl⟩
  | @error f s e queue h =>
    refine ⟨queue ++ cb.registers f s, ?_, nofun⟩
    simp
  | @next f s s' queue ran result h hrest ih =>
    obtain ⟨left, horder, hleft⟩ := ih
    refine ⟨left, ?_, hleft⟩
    simp [horder]

/-- What becomes of all that is waiting at a time, from the state `s`: an error ends the service whatever else waits, or
all run, and the service goes on with what they have registered behind whatever else waits. -/
def Batch (cb : Callbacks F σ) (batch : List F) (s : σ) (registered : Rounds σ) : Prop :=
  (∃ ran e s', ∀ rest, cb.Serves (batch ++ rest) s ran (.error e) s') ∨
    ∃ regs s₁, registered = cb.waiting regs ∧ ∀ rest ran result s', cb.Serves (rest ++ regs) s₁ ran result s' →
      ∃ ran', cb.Serves (batch ++ rest) s ran' result s'

theorem batch_single (f : F) (s : σ) : cb.Batch [f] s (cb.run f s).rounds := by
  cases h : (cb.run f s).result with
  | error e => exact .inl ⟨[(f, s)], e, _, fun rest => .error rest h⟩
  | ok u =>
    refine .inr ⟨cb.registers f s, (cb.run f s).state, cb.rounds_run f s, fun rest ran result s' hrest => ?_⟩
    exact ⟨(f, s) :: ran, .next h hrest⟩

theorem batch_cons {f : F} {batch : List F} {g : Step Unit σ} (hbatch : ∀ s, cb.Batch batch s (g s).rounds) (s : σ) :
    cb.Batch (f :: batch) s (Rounds.appendOutcome (cb.run f s) g).rounds := by
  have hrounds := cb.rounds_run f s
  have hnext : ∀ {rest ran result s'}, (cb.run f s).result = .ok () →
      cb.Serves (batch ++ (rest ++ cb.registers f s)) (cb.run f s).state ran result s' →
      cb.Serves (f :: batch ++ rest) s ((f, s) :: ran) result s' := by
    intro rest ran result s' h hrest
    rw [← List.append_assoc] at hrest
    exact .next h hrest
  cases h : (cb.run f s).result with
  | error e => exact .inl ⟨[(f, s)], e, _, fun rest => .error (batch ++ rest) h⟩
  | ok u =>
    have hb := hbatch (cb.run f s).state
    generalize cb.run f s = o at h hrounds hnext hb ⊢
    obtain ⟨result, s₁, later, rounds⟩ := o
    cases h
    rcases hb with ⟨ran, e, s', hfails⟩ | ⟨regs, s₂, hregs, hgoes⟩
    · exact .inl ⟨(f, s) :: ran, e, s', fun rest => hnext rfl (hfails (rest ++ cb.registers f s))⟩
    · -- what the callback has registered waits in front of what the batch registers after it
      refine .inr ⟨cb.registers f s ++ regs, s₂, ?_, fun rest ran result s' hrest => ?_⟩
      · rw [waiting_append, ← hregs]
        exact congrArg (Rounds.append · _) hrounds
      · rw [← List.append_assoc] at hrest
        obtain ⟨ran', hran'⟩ := hgoes _ _ _ _ hrest
        exact ⟨(f, s) :: ran', hnext rfl hran'⟩

theorem exists_batch (cb : Callbacks F σ) (f : F) (fs : List F) :
    ∃ g : Step Unit σ, cb.waiting (f :: fs) = .round g ∧ ∀ s, cb.Batch (f :: fs) s (g s).rounds := by
  induction fs generalizing f with
  | nil => exact ⟨cb.run f, rfl, batch_single f⟩
  | cons f' fs ih =>
    obtain ⟨g, hg, hbatch⟩ := ih f'
    refine ⟨fun s => Rounds.appendOutcome (cb.run f s) g, ?_, batch_cons hbatch⟩
    show (Rounds.round (cb.run f)).append (cb.waiting (f' :: fs)) = _
    rw [hg]
    rfl

/-- **The callbacks of an attempt come to an end.** -/
theorem exists_serves (cb : Callbacks F σ) (queue : List F) (s : σ) :
    ∃ ran result s', cb.Serves queue s ran result s' := by
  generalize hr : cb.waiting queue = r
  induction r using Rounds.induction generalizing queue s with
  | done =>
    cases queue with
    | nil => exact ⟨[], .ok (), s, .nil s⟩
    | cons f fs =>
      obtain ⟨g, hg, -⟩ := cb.exists_batch f fs
      rw [hg] at hr
      cases hr
  | round g ih =>
    cases queue with
    | nil => cases hr
    | cons f fs =>
      obtain ⟨g', hg, hbatch⟩ := cb.exists_batch f fs
      rw [hg] at hr
      cases hr
      rcases hbatch s with ⟨ran, e, s', hfails⟩ | ⟨regs, s₁, hregs, hgoes⟩
      · exact ⟨ran, .error e, s', List.append_nil (f :: fs) ▸ hfails []⟩
      · -- what was registered meanwhile makes the next round, which is a smaller tree
        obtain ⟨ran, result, s', hrest⟩ := ih s regs s₁ hregs.symm
        obtain ⟨ran', hran'⟩ := hgoes [] ran result s' hrest
        exact ⟨ran', result, s', List.append_nil (f :: fs) ▸ hran'⟩

/-- What runs in an attempt before its end: the code, and if that succeeds the callbacks, up to the first error. -/
inductive Runs (cb : Callbacks F σ) (body : Step α σ) (queue : List F) (s : σ) :
    List (F × σ) → Except Error α → σ → Prop
  | failed {e : Error} (h : (body s).result = .error e) : Runs cb body queue s [] (.error e) (body s).state
  | served {a : α} {ran : List (F × σ)} {result : Except Error Unit} {s₁ : σ} (h : (body s).result = .ok a)
      (hserves : cb.Serves queue (body s).state ran result s₁) :
      Runs cb body queue s ran (result.map fun _ => a) s₁

variable {body : Step α σ} {value : Except Error α}

theorem exists_runs (cb : Callbacks F σ) (body : Step α σ) (queue : List F) (s : σ) :
    ∃ ran value s₁, cb.Runs body queue s ran value s₁ := by
  cases h : (body s).result with
  | error e => exact ⟨[], .error e, _, .failed h⟩
  | ok a =>
    obtain ⟨ran, result, s₁, hserves⟩ := cb.exists_serves queue (body s).state
    exact ⟨ran, _, s₁, .served h hserves⟩

theorem Runs.runAll_eq (h : cb.Runs body queue s ran value s') (hqueue : (body s).rounds = cb.waiting queue) :
    (body.runAll s).result = value ∧ (body.runAll s).state = s' := by
  unfold Step.runAll
  dsimp only
  cases h with
  | failed h =>
    rw [h]
    exact ⟨rfl, rfl⟩
  | @served a _ result _ h hserves =>
    obtain ⟨hresult, hstate⟩ := hserves.run_eq
    rw [h, hqueue]
    exact ⟨congrArg (Except.map fun _ => a) hresult, hstate⟩

theorem Runs.order (h : cb.Runs body queue s ran value s') : ∃ left : List F,
    ran.map Prod.fst ++ left = queue ++ ran.flatMap (fun x => cb.registers x.1 x.2) ∧
      ∀ a, value = .ok a → left = [] := by
  cases h with
  | failed h => exact ⟨queue, by simp, nofun⟩
  | @served a _ result _ h hserves =>
    obtain ⟨left, horder, hleft⟩ := hserves.order
    refine ⟨left, horder, fun b hb => hleft ?_⟩
    cases result with
    | error e => cases hb
    | ok u => rfl

end Callbacks

/-! ## The end of an attempt -/

namespace Calls

def withCommit (c : Calls) : Calls := { c with commits := c.commits + 1 }

def withRollback (c : Calls) : Calls := { c with rollbacks := c.rollbacks + 1 }

end Calls

/-- The error that counts after the rollback for another one: an optimistic lock outranks all but an interruption. -/
def Error.outrankedBy (e : Error) : Except Error Unit → Error
  | .error failure => if e.kind ≠ .interrupted ∧ failure.kind = .optimisticLock then failure else e
  | .ok () => e

/-- What the rollback of a dry run makes of its value. -/
def keptUnlessLocked {α : Type} (a : α) : Except Error Unit → Except Error α
  | .error failure => if failure.kind = .optimisticLock then .error failure else .ok a
  | .ok () => .ok a

namespace TxHandle

variable {F σ α : Type} {p : TxHandle σ}

/-- Something in the state tells how often the transaction has been committed and rolled back. -/
structure Counted (p : TxHandle σ) (calls : σ → Calls) : Prop where
  commit : ∀ s, calls (p.commit s).2 = (calls s).withCommit
  rollback : ∀ s, calls (p.rollback s).2 = (calls s).withRollback
  report : ∀ severity message s, calls (p.report severity message s) = calls s

theorem isPath_calls (calls : σ → Calls) : IsPath (fun s s' => calls s' = calls s) where
  refl _ := rfl
  trans h h' := h'.trans h

namespace Counted

variable {calls : σ → Calls}

theorem rollbackAfter (hp : p.Counted calls) (e : Error) (s : σ) :
    calls (p.rollbackAfter e s).2 = (calls s).withRollback ∧
      (p.rollbackAfter e s).1 =
        e.outrankedBy (p.rollback (p.reportLog s!"Rollback due to {e.message}" "! " s)).1 := by
  have hcalls := hp.rollback (p.reportLog s!"Rollback due to {e.message}" "! " s)
  rw [reportLog, hp.report] at hcalls
  unfold TxHandle.rollbackAfter
  rw [reportLog]
  generalize p.rollback (p.report .debug _ s) = r at hcalls
  obtain ⟨answer, s'⟩ := r
  cases answer with
  | ok u => exact ⟨hcalls, rfl⟩
  | error failure =>
    unfold Error.outrankedBy
    dsimp only
    split
    · exact ⟨(hp.report ..).trans hcalls, rfl⟩
    · exact ⟨(hp.report ..).trans hcalls, rfl⟩

theorem rollbackDryRun (hp : p.Counted calls) (s : σ) (a : α) :
    calls (p.rollbackDryRun s).2 = (calls s).withRollback ∧
      (p.rollbackDryRun s).1.map (fun _ => a) = keptUnlessLocked a (p.rollback s).1 := by
  have hcalls := hp.rollback s
  unfold TxHandle.rollbackDryRun
  generalize p.rollback s = r at hcalls
  obtain ⟨answer, s'⟩ := r
  cases answer with
  | ok u => exact ⟨(hp.report ..).trans hcalls, rfl⟩
  | error failure =>
    unfold keptUnlessLocked
    dsimp only
    split
    · exact ⟨(hp.report ..).trans hcalls, rfl⟩
    · exact ⟨(hp.report ..).trans hcalls, rfl⟩

theorem commitNow (hp : p.Counted calls) (logOnSuccess : Bool) (s : σ) :
    calls (p.commitNow logOnSuccess s).2 = (calls s).withCommit ∧
      (p.commitNow logOnSuccess s).1 = (p.commit s).1 := by
  have hcalls := hp.commit s
  unfold TxHandle.commitNow
  generalize p.commit s = r at hcalls
  obtain ⟨answer, s'⟩ := r
  cases answer with
  | error e => exact ⟨(hp.report ..).trans hcalls, rfl⟩
  | ok u =>
    dsimp only
    split
    · exact ⟨(hp.report ..).trans hcalls, rfl⟩
    · exact ⟨hcalls, rfl⟩

end Counted

/-- **An attempt runs its code, then its callbacks in the order of registration, and closes its transaction in one
call.**  That is a commit if nothing has failed and the run is not a dry one, and a rollback else. -/
theorem closes_once (p : TxHandle σ) {calls : σ → Calls} (hp : p.Counted calls) (o : TxOptions) (cb : Callbacks F σ)
    {body : Step α σ} {s : σ} (hbody : (body s).Along (fun s s' => calls s' = calls s) s) {queue : List F}
    (hqueue : (body s).rounds = cb.waiting queue) :
    ∃ ran value s₁, cb.Runs body queue s ran value s₁ ∧
      (∃ left, ran.map Prod.fst ++ left = queue ++ ran.flatMap (fun x => cb.registers x.1 x.2) ∧
        ∀ a, value = .ok a → left = []) ∧
      match value, o.dryRun with
      | .error e, _ =>
        calls (p.attempt o body s).state = (calls s).withRollback ∧
          (p.attempt o body s).result =
            .error (e.outrankedBy (p.rollback (p.reportLog s!"Rollback due to {e.message}" "! " s₁)).1)
      | .ok a, true =>
        calls (p.attempt o body s).state = (calls s).withRollback ∧
          (p.attempt o body s).result = keptUnlessLocked a (p.rollback s₁).1
      | .ok a, false =>
        calls (p.attempt o body s).state = (calls s).withCommit ∧
          (p.attempt o body s).result = (p.commit s₁).1.map (fun _ => a) := by
  obtain ⟨ran, value, s₁, hruns⟩ := cb.exists_runs body queue s
  obtain ⟨hvalue, hstate⟩ := hruns.runAll_eq hqueue
  obtain ⟨hcalls, hlater⟩ := hbody.runAll (isPath_calls calls)
  refine ⟨ran, value, s₁, hruns, hruns.order, ?_⟩
  unfold attempt
  dsimp only
  -- the code and its callbacks leave the counts alone, so that the one call that follows is all that is counted
  rw [hvalue, hstate]
  rw [hstate] at hcalls
  cases value with
  | error e =>
    obtain ⟨hclosed, hresult⟩ := hp.rollbackAfter e s₁
    exact ⟨hclosed.trans (congrArg Calls.withRollback hcalls), congrArg Except.error hresult⟩
  | ok a =>
    cases hdry : o.dryRun with
    | true =>
      obtain ⟨hclosed, hresult⟩ := hp.rollbackDryRun s₁ a
      exact ⟨hclosed.trans (congrArg Calls.withRollback hcalls), hresult⟩
    | false =>
      obtain ⟨hclosed, hresult⟩ := hp.commitNow o.logOnSuccess s₁
      rw [hcalls] at hclosed
      dsimp only
      rw [if_neg Bool.false_ne_true, ← hresult]
      generalize p.commitNow o.logOnSuccess s₁ = r at hclosed
      obtain ⟨answer, s₂⟩ := r
      cases answer with
      | error e => exact ⟨hclosed, rfl⟩
      | ok u => exact ⟨(along_runCallbacks (isPath_calls calls) hlater.afterCommit s₂).trans hclosed, rfl⟩

end TxHandle

/-! ## Programs register callbacks -/

variable {κ : Type} [DecidableEq κ] {C : κ → EntityType X} {V : Type}

theorem Shared.counted_handle (tx : TxId) :
    (handle (C := C) (V := V) tx).Counted (fun s => s.store.calls) where
  commit s := by
    show (s.store.commit tx).2.calls = _
    unfold FaultyRepository.commit
    dsimp only
    split <;> rfl
  rollback s := by
    show (s.store.rollback tx).2.calls = _
    unfold FaultyRepository.rollback
    dsimp only
    generalize s.store.inner.rollback tx = r
    obtain ⟨answer, inner⟩ := r
    cases answer with
    | error e => rfl
    | ok u =>
      dsimp only
      split <;> rfl
  report _ _ _ := rfl

/-- A program as a callback before the commit; there is none outside of an attempt. -/
def Scope.Context.callback : {p : Scope} → p.Context → Program C V .attempt → Step Unit (Shared C V)
  | .attempt, a, q => fun s => (q.denote a s).dropValue
  | .outside, (), _ => fun s => { result := .ok (), state := s, rounds := .done }

namespace Program

/-- The callbacks before the commit that a program registers, in order. -/
def registered {p : Scope} : Program C V p → p.Context → Shared C V → List (Program C V .attempt)
  | .finish _, _, _ => []
  | .note v next, c, s => next.registered c (s.note v)
  | .askActive next, c, s => (next s.inTransaction).registered c s
  | .cancel token next, c, s => next.registered c { s with tokens := s.tokens.cancel token }
  | .queueFaults faults next, c, s => next.registered c { s with store := s.store.queue faults }
  | .call m site body next, c, s =>
    let (result, s) := m.tx site (fun n a => (body n).denote a) s
    (next result).registered c s
  | .aside w next, c, s =>
    let (result, s) := s.onStore (fun store => store.aside w)
    (next result).registered c s
  | .work w next, a, s =>
    let (result, s) := s.onStore (fun store => store.work a.tx w)
    (next result).registered a s
  | .inspect next, a, s => (next (view a s)).registered a s
  | .record level message next, a, s =>
    next.registered a { s with store := s.store.record a.tx (recorded level message) }
  | .commit next, a, s =>
    let (result, s) := s.onStore (fun store => store.commit a.tx)
    (next result).registered a s
  | .rollback next, a, s =>
    let (result, s) := s.onStore (fun store => store.rollback a.tx)
    (next result).registered a s
  | .beforeCommit callback next, a, s => callback :: next.registered a s
  | .afterCommit _ next, a, s => next.registered a s
  | .atEnd _ next, a, s => next.registered a s
termination_by structural q => q

/-- The callbacks that a program leaves waiting are those that it has registered, in that order. -/
theorem rounds_denote {p : Scope} (q : Program C V p) (c : p.Context) (s : Shared C V) :
    (q.denote c s).rounds = .ofList ((q.registered c s).map c.callback) := by
  induction q generalizing s with
  | finish result => rfl
  | note v next ih => exact ih c _
  | askActive next ih => exact ih _ c s
  | cancel token next ih => exact ih c _
  | queueFaults faults next ih => exact ih c _
  | call m site body next ihbody ih => exact ih _ c _
  | aside w next ih => exact ih _ c _
  | work w next ih => exact ih _ c _
  | inspect next ih => exact ih _ c s
  | record level message next ih => exact ih c _
  | commit next ih => exact ih _ c _
  | rollback next ih => exact ih _ c _
  | beforeCommit callback next ihc ih => exact congrArg (Rounds.append _) (ih c s)
  | afterCommit callback next ihc ih => exact ih c s
  | atEnd callback next ihc ih => exact ih c s

/-- The programs that run as callbacks before the commit of an attempt. -/
def callbacks (a : Attempt) : Callbacks (Program C V .attempt) (Shared C V) where
  run q s := (q.denote a s).dropValue
  registers q s := q.registered a s
  rounds_run q s := q.rounds_denote a s

end Program

namespace Sample

/-- Code that registers two callbacks, the first of which registers another one; all of them leave notes. -/
def registering : Program (catalog "sample") Nat .attempt :=
  .beforeCommit (.note 1 (.beforeCommit (.note 3 (.finish (.ok 3))) (.finish (.ok 1))))
    (.beforeCommit (.note 2 (.finish (.ok 2)))
      (.note 0 (.finish (.ok 7))))

/-- A state in which a transaction has been opened. -/
def opened : Shared (catalog "sample") Nat := { store := (({} : FaultyRepository (catalog "sample")).start {}).2 }

end Sample

open Sample in
theorem TxHandle.closes_once_in_order :
    let a : Attempt := ⟨1, TxName.plain "sample"⟩
    let ended := (Shared.handle 1).attempt {} (registering.denote a) opened
    ended.result = .ok 7 ∧ ended.state.journal = [0, 1, 2, 3] ∧
      ended.state.store.calls = opened.store.calls.withCommit ∧
      ∃ ran : List (Program (catalog "sample") Nat .attempt × Shared (catalog "sample") Nat),
        ran.map Prod.fst =
          registering.registered a opened ++ ran.flatMap (fun x => x.1.registered a x.2) := by
  intro a ended
  have hcode : (registering.denote a opened).Along (fun s s' => s'.store.calls = s.store.calls) opened := by
    let R : Shared (catalog "sample") Nat → Shared (catalog "sample") Nat → Prop :=
      fun s s' => s'.store.calls = s.store.calls
    have hR : IsPath R := TxHandle.isPath_calls _
    have hfinish : ∀ n, ((.finish (.ok n) : Program (catalog "sample") Nat .attempt).denote a).Along R :=
      fun n s => Outcome.along_done (hR.refl s) _
    have hnote : ∀ v n, ((.note v (.finish (.ok n)) : Program (catalog "sample") Nat .attempt).denote a).Along R :=
      fun v n s => (hfinish n (s.note v)).after hR rfl
    refine Outcome.Along.beforeCommit hR ?_ fun s => Outcome.Along.dropValue ?_
    · exact (hnote 0 7 opened).beforeCommit hR fun s => (hnote 2 2 s).dropValue
    · exact Outcome.Along.after hR ((hfinish 1 (s.note 1)).beforeCommit hR fun s => (hnote 3 3 s).dropValue) rfl
  obtain ⟨ran, value, s₁, hruns, ⟨left, horder, hleft⟩, hclosed⟩ := TxHandle.closes_once (Shared.handle 1)
    (Shared.counted_handle 1) {} (Program.callbacks a) hcode (registering.rounds_denote a opened)
  have hvalue : value = .ok 7 := (hruns.runAll_eq (registering.rounds_denote a opened)).1.symm.trans (by decide +kernel)
  subst hvalue
  obtain rfl := hleft 7 rfl
  rw [List.append_nil] at horder
  exact ⟨by decide +kernel, by decide +kernel, hclosed.1, ran, horder⟩

end EntityStore
