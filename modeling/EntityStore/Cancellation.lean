import EntityStore.Error
/-!
# Cancellation

A token is a handle on a flag that is raised once and never lowered; copies of a token share its flag.  A pool
holds the flags, and a token names one of them.

A wait on a token ends with its time, unless the flag is up by then.  Who else raises the flag while somebody waits, and
how far the clock reaches, is not decided here: each wait is given a `Meanwhile` that tells.  A wait whose end the clock
does not reach goes on until the flag is raised, and without end if nobody does that.
-/
namespace EntityStore

/-- A handle on a cancellation flag. -/
structure Token where
  flag : Nat
deriving DecidableEq

/-- The flags of all tokens. -/
structure TokenPool where
  flags : List Bool := []
deriving DecidableEq

namespace TokenPool

/-- A token with a flag of its own, not raised. -/
def fresh (p : TokenPool) : Token × TokenPool := (⟨p.flags.length⟩, ⟨p.flags ++ [false]⟩)

def cancel (p : TokenPool) (t : Token) : TokenPool := ⟨p.flags.set t.flag true⟩

def isCancelled (p : TokenPool) (t : Token) : Bool := p.flags.getD t.flag false

/-- Fails if the token is cancelled. -/
def check (p : TokenPool) (t : Token) : Except Error Unit :=
  if p.isCancelled t then .error (.interrupted "DB query interrupted") else .ok ()

end TokenPool

/-- What happens while somebody waits. -/
structure Meanwhile where
  /-- Whether the token that is waited on is cancelled. -/
  cancelled : Bool := false
  /-- Whether the clock reaches the end of a wait of the given length. -/
  reaches : Duration → Bool := fun _ => true
  /-- The draw that spreads the length of the wait. -/
  draw : Float := 0

/-- What a wait comes to. -/
inductive Wait where
  /-- Its time is over. -/
  | elapsed
  /-- The token is cancelled. -/
  | interrupted
  | endless
deriving DecidableEq

/-- What the one who waits is told.  Of a wait without end nothing is ever told. -/
def Wait.result : Wait → Except Error Unit
  | .elapsed => .ok ()
  | .interrupted | .endless => .error (.interrupted "DB query interrupted")

/-- What a wait comes to, given whether the token is cancelled by the time it begins. -/
def Wait.of (cancelled : Bool) (during : Meanwhile) (duration : Duration) : Wait :=
  if cancelled || during.cancelled then .interrupted else if during.reaches duration then .elapsed else .endless

theorem Wait.of_eq_elapsed_iff {cancelled : Bool} {during : Meanwhile} {duration : Duration} :
    Wait.of cancelled during duration = .elapsed ↔
      ¬(cancelled = true ∨ during.cancelled = true) ∧ during.reaches duration = true := by
  unfold Wait.of
  cases cancelled <;> cases during.cancelled <;> cases during.reaches duration <;> simp

theorem Wait.of_eq_interrupted_iff {cancelled : Bool} {during : Meanwhile} {duration : Duration} :
    Wait.of cancelled during duration = .interrupted ↔ cancelled = true ∨ during.cancelled = true := by
  unfold Wait.of
  cases cancelled <;> cases during.cancelled <;> cases during.reaches duration <;> simp

theorem Wait.of_eq_endless_iff {cancelled : Bool} {during : Meanwhile} {duration : Duration} :
    Wait.of cancelled during duration = .endless ↔
      cancelled = false ∧ during.cancelled = false ∧ during.reaches duration = false := by
  unfold Wait.of
  cases cancelled <;> cases during.cancelled <;> cases during.reaches duration <;> simp

/-- Waits until the time is over or the token is cancelled. -/
def TokenPool.sleep (p : TokenPool) (t : Token) (during : Meanwhile) (duration : Duration) : Wait × TokenPool :=
  (.of (p.isCancelled t) during duration, if during.cancelled then p.cancel t else p)

end EntityStore
