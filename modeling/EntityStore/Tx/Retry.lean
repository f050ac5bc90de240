import EntityStore.Tx.Options
import EntityStore.Error
/-!
# Attempts until one counts

A call makes one attempt after another until an attempt succeeds, its error forbids another one, the caller is
interrupted while it waits, or no attempt is left.  `Verdict.of` decides what an error means; the loop follows
the verdicts, and tells its surroundings what happened at each point.
-/
namespace EntityStore

/-- What the error of an attempt means for the call. -/
inductive Verdict where
  /-- The call fails with the error. -/
  | fatal
  /-- The outcome of the attempt is unknown, and the options forbid to try again. -/
  | refused
  /-- Another attempt may be made. -/
  | again
deriving DecidableEq

/-- The verdict on an error, given whether its attempt had tried to commit. -/
def Verdict.of (o : TxOptions) (commitAttempted : Bool) (e : Error) : Verdict :=
  if !e.isRetryable then .fatal
  else if e.kind = .conditionallyRetryable ∧ !o.canRetry commitAttempted then .refused
  else .again

/-- What the loop does to its surroundings. -/
structure RetryHooks (α σ : Type) where
  /-- Runs one attempt; the flag tells whether it tried to commit. -/
  attempt : σ → (Except Error α × Bool) × σ
  /-- An attempt of the given number has succeeded. -/
  succeeded : Nat → σ → σ
  /-- An attempt has failed with an error that ends the call or leads to another attempt. -/
  failed : Nat → Verdict → Error → σ → σ
  /-- Waits, as long as is said for a draw; fails if the caller is interrupted or the wait never ends. -/
  sleep : (Float → Duration) → σ → Except Error Unit × σ
  /-- The call was interrupted while it waited after an attempt. -/
  interrupted : Nat → Error → σ → σ
  /-- The last attempt has failed. -/
  exhausted : Nat → Error → σ → σ

namespace RetryHooks

variable {α σ : Type} (p : RetryHooks α σ) (o : TxOptions)

/-- How long to wait after attempt number `n` has failed, for a draw. -/
def delayAfter (n : Nat) (e : Error) (draw : Float) : Duration :=
  match e.backoff? with
  | some policy => policy.delay n draw
  | none => .zero

/-- Makes attempt number `n`, and at most `left` more. -/
def loop : (left n : Nat) → σ → Except Error α × σ
  | left, n, s =>
    let ((result, commitAttempted), s) := p.attempt s
    match result with
    | .ok a => (.ok a, p.succeeded n s)
    | .error e =>
      let verdict := Verdict.of o commitAttempted e
      let s := p.failed n verdict e s
      match verdict with
      | .fatal => (.error e, s)
      | .refused => (.error e.failImmediately, s)
      | .again =>
        match left with
        | 0 => (.error e.rethrow, p.exhausted n e s)
        | left + 1 =>
          match p.sleep (delayAfter n e) s with
          | (.error interruption, s) => (.error interruption, p.interrupted n e s)
          | (.ok (), s) => loop left (n + 1) s
termination_by structural left => left

/-- Makes up to `retries + 1` attempts. -/
def run (retries : Nat) (s : σ) : Except Error α × σ := p.loop o retries 1 s

end RetryHooks

end EntityStore
