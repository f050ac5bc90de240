/-!
# Instants as calendar text

An instant is a count of seconds from the beginning of 1970, with nanoseconds.  It is written as a date and a
time of day in the proleptic Gregorian calendar at offset zero, `2023-11-14T22:13:20.120+00:00`: the fraction
takes 0, 3, 6 or 9 places, whichever is the first to be exact, and a leap second, which an instant marks by a
nanosecond count of 10⁹ or more, is second 60 of its minute.
-/
namespace EntityStore

open Std

/-- A point in time.  `nanos` is 10⁹ or more within a leap second only. -/
structure Instant where
  seconds : Int
  nanos : Nat
deriving DecidableEq

namespace Instant

instance : Ord Instant :=
  ⟨fun a b => (compare a.seconds b.seconds).then (compare a.nanos b.nanos)⟩

instance : TransOrd Instant :=
  inferInstanceAs (TransCmp (compareLex (compareOn Instant.seconds) (compareOn Instant.nanos)))

instance : LawfulEqOrd Instant where
  eq_of_compare {a b} h := by
    obtain ⟨s, n⟩ := a
    obtain ⟨s', n'⟩ := b
    obtain ⟨hs, hn⟩ := Ordering.then_eq_eq.1 h
    cases LawfulEqOrd.eq_of_compare hs
    cases LawfulEqOrd.eq_of_compare hn
    rfl

/-- A day of the Gregorian calendar. -/
structure Date where
  year : Int
  month : Nat
  day : Nat

/-- The date of the day that is `days` days after 1970-01-01.  Years begin in March here, so that the leap day
is the last of its year, and an era is the 400 years after which the calendar repeats. -/
def Date.ofDays (days : Int) : Date :=
  let shifted := days + 719468
  let era := shifted / 146097
  let dayOfEra := (shifted % 146097).toNat
  let yearOfEra := (dayOfEra - dayOfEra / 1460 + dayOfEra / 36524 - dayOfEra / 146096) / 365
  let dayOfYear := dayOfEra - (365 * yearOfEra + yearOfEra / 4 - yearOfEra / 100)
  let march := (5 * dayOfYear + 2) / 153
  let day := dayOfYear - (153 * march + 2) / 5 + 1
  let month := if march < 10 then march + 3 else march - 9
  { year := yearOfEra + era * 400 + (if month ≤ 2 then 1 else 0), month, day }

/-- A number in decimal, with zeros in front up to `width` figures. -/
def pad (width n : Nat) : String :=
  let figures := toString n
  String.ofList (List.replicate (width - figures.length) '0') ++ figures

/-- A year from 0 to 9999 has four figures; any other has a sign and at least four. -/
def yearText (y : Int) : String :=
  if 0 ≤ y ∧ y ≤ 9999 then pad 4 y.toNat
  else (if y < 0 then "-" else "+") ++ pad 4 y.natAbs

/-- The shortest exact fraction of 0, 3, 6 or 9 places. -/
def fractionText (nanos : Nat) : String :=
  if nanos = 0 then ""
  else if nanos % 1000000 = 0 then "." ++ pad 3 (nanos / 1000000)
  else if nanos % 1000 = 0 then "." ++ pad 6 (nanos / 1000)
  else "." ++ pad 9 nanos

def text (t : Instant) : String :=
  let date := Date.ofDays (t.seconds / 86400)
  let ofDay := (t.seconds % 86400).toNat
  let leap := t.nanos / 1000000000
  yearText date.year ++ "-" ++ pad 2 date.month ++ "-" ++ pad 2 date.day ++ "T" ++
    pad 2 (ofDay / 3600) ++ ":" ++ pad 2 (ofDay / 60 % 60) ++ ":" ++ pad 2 (ofDay % 60 + leap) ++
    fractionText (t.nanos % 1000000000) ++ "+00:00"

end Instant

end EntityStore
