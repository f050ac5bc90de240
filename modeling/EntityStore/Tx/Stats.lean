import EntityStore.Dict
/-!
# Statistics of transactions

Counters of attempts and of their outcomes, shared by all managers of a program.  An attempt ends as a commit, as a
rollback or as a retry, and a call that gives up or is interrupted between attempts counts as failed.
-/
namespace EntityStore

/-- The counters. -/
structure TxStats where
  attempts : Nat := 0
  commits : Nat := 0
  /-- Failures that were not retried, and dry runs. -/
  rollbacks : Nat := 0
  dryRuns : Nat := 0
  fails : Nat := 0
  /-- Retries by the reason of the failure. -/
  retries : Dict String Nat := {}
  /-- How many attempts were timed. -/
  attemptsTimed : Nat := 0
  /-- How many calls were timed. -/
  callsTimed : Nat := 0
deriving DecidableEq

namespace TxStats

def recordAttempt (s : TxStats) : TxStats := { s with attempts := s.attempts + 1, attemptsTimed := s.attemptsTimed + 1 }

def recordCommit (s : TxStats) : TxStats := { s with commits := s.commits + 1 }

def recordRollback (s : TxStats) : TxStats := { s with rollbacks := s.rollbacks + 1 }

def recordDryRun (s : TxStats) : TxStats := { s with rollbacks := s.rollbacks + 1, dryRuns := s.dryRuns + 1 }

def recordFail (s : TxStats) : TxStats := { s with fails := s.fails + 1 }

def recordRetry (s : TxStats) (reason : String) : TxStats :=
  { s with retries := s.retries.insert reason (s.retries.getD reason 0 + 1) }

def recordCall (s : TxStats) : TxStats := { s with callsTimed := s.callsTimed + 1 }

/-- All retries, whatever their reason. -/
def totalRetries (s : TxStats) : Nat := s.retries.values.foldr (· + ·) 0

theorem foldr_add_put (k : String) (l : List (String × Nat)) :
    ((Dict.put k ((Dict.find k l).getD 0 + 1) l).map Prod.snd).foldr (· + ·) 0 =
      (l.map Prod.snd).foldr (· + ·) 0 + 1 := by
  induction l with
  | nil => rfl
  | cons p rest ih =>
    obtain ⟨k', n⟩ := p
    by_cases h : k' = k
    · simp [Dict.put, Dict.find, h]; omega
    · simp [Dict.put, Dict.find, h, ih]; omega

theorem totalRetries_recordRetry (s : TxStats) (reason : String) :
    (s.recordRetry reason).totalRetries = s.totalRetries + 1 := foldr_add_put reason s.retries.entries

end TxStats

end EntityStore
