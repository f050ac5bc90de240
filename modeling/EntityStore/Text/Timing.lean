/-!
# Times in log text

A log says when each message came, `[+12ms] ` since the beginning, and a message may begin with the time that its
subject took: `[ 3ns ] ` for a statement and `[[15ns]]` for a whole transaction.
-/
namespace EntityStore.Timing

/-- How long after the beginning a message came, in front of the message. -/
def stamp (millis : Nat) : String := s!"[+{millis}ms] "

/-- The time that a statement took, in front of what it did. -/
def ofStatement (nanos : Nat) : String := s!"[ {nanos}ns ] "

/-- The time that a transaction took. -/
def ofTransaction (nanos : Nat) : String := s!"[[{nanos}ns]]"

end EntityStore.Timing
