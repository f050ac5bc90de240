import EntityStore.Rounding
/-!
# Spans of time

A duration is a whole number of nanoseconds.  The longest one has 2⁶⁴ − 1 seconds and 999999999 nanoseconds.
Seconds in floating point become a duration by rounding to the nearest nanosecond, ties to even, and what is too
long becomes the longest one.
-/
namespace EntityStore

/-- A span of time in nanoseconds. -/
structure Duration where
  nanos : Nat
deriving DecidableEq

namespace Duration

def zero : Duration := ⟨0⟩

/-- The longest duration. -/
def longest : Duration := ⟨18446744073709551615 * 1000000000 + 999999999⟩

def ofParts (seconds nanos : Nat) : Duration := ⟨seconds * 1000000000 + nanos⟩

def ofSeconds (seconds : Nat) : Duration := ofParts seconds 0

def ofMillis (millis : Nat) : Duration := ⟨millis * 1000000⟩

/-- Whole seconds. -/
def seconds (d : Duration) : Nat := d.nanos / 1000000000

/-- Nanoseconds beyond the whole seconds. -/
def subsecond (d : Duration) : Nat := d.nanos % 1000000000

/-- The duration in seconds, as nearly as floating point allows. -/
def toFloatSeconds (d : Duration) : Float :=
  d.seconds.toUInt64.toFloat + d.subsecond.toUInt64.toFloat / 1000000000

/-- The duration of `x` seconds, for a finite `x` that is not negative. -/
def ofFloatSeconds (x : Float) : Duration :=
  let bits := x.toBits.toNat
  -- 52 bits of fraction below 11 bits of exponent
  let field := bits / 4503599627370496 % 2048
  let fraction := bits % 4503599627370496
  -- the number is `significand * 2 ^ (exponent - 1075)`
  let significand := if field = 0 then fraction else 4503599627370496 + fraction
  let exponent := if field = 0 then 1 else field
  let nanos := Rounding.divHalfEven (significand * 1000000000 * Nat.pow 2 exponent) (Nat.pow 2 1075)
  if nanos ≤ longest.nanos then ⟨nanos⟩ else longest

end Duration

end EntityStore
