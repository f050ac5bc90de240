import EntityStore.Error
/-!
# What the code of an attempt leaves behind

Code that runs in a transaction comes to a result and a state, and may have put off further steps: callbacks before
the commit, callbacks after it, and callbacks at the end of the whole call.  A callback before the commit runs in the
transaction as well and may put off more of each kind; those that it registers for before the commit run after all
that were registered before them.

`Rounds` holds the callbacks before the commit in that order.  A round is all that is waiting at one moment, and
running it yields the round of what was registered meanwhile, so that `Rounds.run` is a recursion on the data.
`Rounds.append` puts a queue behind another one, and `run_append_round` is the law of a queue: the first callback
runs first, and what it registers goes behind the rest.
-/
namespace EntityStore

/-- Callbacks for after the commit and for the end of the call. -/
structure Later (σ : Type) where
  afterCommit : List (σ → σ) := []
  atEnd : List (σ → σ) := []

namespace Later

variable {σ : Type}

def append (a b : Later σ) : Later σ := ⟨a.afterCommit ++ b.afterCommit, a.atEnd ++ b.atEnd⟩

@[simp] theorem append_empty (a : Later σ) : a.append {} = a := by simp [append]

@[simp] theorem empty_append (a : Later σ) : append {} a = a := by simp [append]

theorem append_assoc (a b c : Later σ) : (a.append b).append c = a.append (b.append c) := by
  simp [append, List.append_assoc]

end Later

/-- A result, the state after it, and what was put off; `ρ` are the callbacks before the commit. -/
structure Outcome (α σ ρ : Type) where
  result : Except Error α
  state : σ
  later : Later σ := {}
  rounds : ρ

/-- The callbacks that wait for the commit. -/
inductive Rounds (σ : Type) where
  | done
  /-- Runs all that is waiting, up to the first error. -/
  | round (run : σ → Outcome Unit σ (Rounds σ))

/-- Code of an attempt. -/
abbrev Step (α σ : Type) : Type := σ → Outcome α σ (Rounds σ)

namespace Rounds

variable {α σ : Type}

mutual

/-- The callbacks of both queues, the first queue's first. -/
def append : Rounds σ → Rounds σ → Rounds σ
  | .done, b => b
  | .round run, .done => .round run
  | .round run, .round run' => .round (fun s => appendOutcome (run s) run')

/-- A round that has run, and the one behind it if there was no error. -/
def appendOutcome : Outcome Unit σ (Rounds σ) → Step Unit σ → Outcome Unit σ (Rounds σ)
  | ⟨.error e, s, later, rounds⟩, _ => ⟨.error e, s, later, rounds⟩
  | ⟨.ok (), s, later, rounds⟩, run' =>
    let second := run' s
    ⟨second.result, second.state, later.append second.later, append rounds second.rounds⟩

end

mutual

/-- Runs all rounds, up to the first error. -/
def run : Rounds σ → σ → Outcome Unit σ Unit
  | .done, s => ⟨.ok (), s, {}, ()⟩
  | .round f, s => runOutcome (f s)

/-- Goes on with the rounds behind one that has run. -/
def runOutcome : Outcome Unit σ (Rounds σ) → Outcome Unit σ Unit
  | ⟨.error e, s, later, _⟩ => ⟨.error e, s, later, ()⟩
  | ⟨.ok (), s, later, rounds⟩ =>
    let rest := run rounds s
    ⟨rest.result, rest.state, later.append rest.later, ()⟩

end

@[simp] theorem append_done (a : Rounds σ) : a.append .done = a := by cases a <;> rfl

@[simp] theorem done_append (b : Rounds σ) : Rounds.append .done b = b := rfl

/-- Goes on after a callback that has run, with the queue that its own callbacks make. -/
def resume (o : Outcome Unit σ (Rounds σ)) (queue : Rounds σ → Rounds σ) : Outcome Unit σ Unit :=
  match o.result with
  | .error e => ⟨.error e, o.state, o.later, ()⟩
  | .ok () =>
    let rest := (queue o.rounds).run o.state
    ⟨rest.result, rest.state, o.later.append rest.later, ()⟩

theorem runOutcome_eq_resume (o : Outcome Unit σ (Rounds σ)) : runOutcome o = resume o (fun r => r) := by
  obtain ⟨result, s, later, rounds⟩ := o
  cases result <;> rfl

theorem run_append_of_eq_round (a : Rounds σ) : ∀ (f : Step Unit σ), a = .round f → ∀ (b : Rounds σ) (s : σ),
    (append (.round f) b).run s = resume (f s) (append b) := by
  refine Rounds.rec (motive_1 := fun a => ∀ (f : Step Unit σ), a = .round f → ∀ (b : Rounds σ) (s : σ),
      (append (.round f) b).run s = resume (f s) (append b))
    (motive_2 := fun o => ∀ (f : Step Unit σ), o.rounds = .round f → ∀ (b : Rounds σ) (s : σ),
      (append (.round f) b).run s = resume (f s) (append b)) ?_ ?_ ?_ a
  · intro f h; cases h
  · intro run ih f h b s
    injection h with h
    subst h
    cases b with
    | done => simp [append, Rounds.run, runOutcome_eq_resume]
    | round g =>
      specialize ih s
      show runOutcome (appendOutcome (run s) g) = _
      generalize run s = o at ih
      obtain ⟨result, s', later, rounds⟩ := o
      cases result with
      | error e => rfl
      | ok u =>
        cases rounds with
        | done =>
          simp only [appendOutcome, done_append, resume, append_done, Rounds.run, runOutcome_eq_resume]
          cases (g s').result <;> simp [Later.append_assoc]
        | round h =>
          have ih := ih h rfl
          have hq : ((Rounds.round g).append (.round h)).run s' = runOutcome (appendOutcome (g s') h) := rfl
          simp only [appendOutcome, resume, runOutcome_eq_resume, hq]
          generalize g s' = o
          obtain ⟨result, s₂, later₂, rounds₂⟩ := o
          cases result with
          | error e => rfl
          | ok u =>
            simp only [appendOutcome, resume, ih]
            cases (h s₂).result <;> simp [Later.append_assoc]
  · intro result s later rounds ih; exact ih

/-- The first callback of a queue runs first, and what it registers goes behind the rest of the queue. -/
theorem run_append_round (f : Step Unit σ) (b : Rounds σ) (s : σ) :
    (append (.round f) b).run s = resume (f s) (append b) := run_append_of_eq_round _ f rfl b s

end Rounds

namespace Step

variable {α σ : Type}

/-- Runs the code and then the callbacks before the commit, up to the first error. -/
def runAll (body : Step α σ) (s : σ) : Outcome α σ Unit :=
  let first := body s
  match first.result with
  | .error e => ⟨.error e, first.state, first.later, ()⟩
  | .ok a =>
    let rest := first.rounds.run first.state
    ⟨rest.result.map (fun _ => a), rest.state, first.later.append rest.later, ()⟩

end Step

end EntityStore
