import EntityStore.Duration
/-!
# Waiting between attempts

A backoff policy says how long to wait after the attempt of a given number has failed: always the same time, or
a time that grows by a factor up to a bound.  Jitter spreads the time on both sides; the draw, a number from −1
to 1, is the caller's, so that the delay itself is a function.
-/
namespace EntityStore

/-- How long to wait before the next attempt. -/
inductive Backoff where
  | fixed (delay : Duration) (jitter : Float)
  | exponential (initial bound : Duration) (jitter multiplier : Float)
deriving DecidableEq

namespace Backoff

/-- No waiting at all. -/
def immediate : Backoff := .fixed .zero 0

/-- One second at first, 1.6 times as long after each attempt, two minutes at most. -/
def standard : Backoff := .exponential (.ofSeconds 1) (.ofSeconds 120) 0.2 1.6

/-- `r * a ^ n`, by squaring from the low bit of `n`. -/
def powerOnto (a : Float) (n : Nat) (r : Float) : Float :=
  let r := if n % 2 = 1 then r * a else r
  if h : n / 2 = 0 then r else powerOnto (a * a) (n / 2) r
termination_by n
decreasing_by omega

/-- The lesser of two numbers; what is not a number gives way. -/
def lesser (a b : Float) : Float :=
  if a.isNaN then b else if b.isNaN then a else if a < b then a else b

/-- The jitter brought into `[0, 1]`. -/
def boundedJitter (jitter : Float) : Float :=
  if jitter < 0 then 0 else if jitter > 1 then 1 else jitter

/-- The duration of `seconds`, spread by the jitter as far as `draw` says. -/
def spread (seconds jitter draw : Float) : Duration :=
  let jitter := boundedJitter jitter
  if seconds <= 0 || !seconds.isFinite then .zero
  else if jitter == 0 then .ofFloatSeconds seconds
  else
    let moved := seconds * (1 + jitter * draw)
    if moved > 0 then (if moved.isFinite then .ofFloatSeconds moved else .longest) else .zero

/-- The delay after the failure of attempt number `attempt`, counted from 1; 0 counts as 1. -/
def delay (policy : Backoff) (attempt : Nat) (draw : Float) : Duration :=
  match policy with
  | .fixed delay jitter => spread delay.toFloatSeconds jitter draw
  | .exponential initial bound jitter multiplier =>
    let exponent := min (attempt - 1) 2147483647
    let base := initial.toFloatSeconds * powerOnto multiplier exponent 1
    spread (lesser base bound.toFloatSeconds) jitter draw

end Backoff

end EntityStore
