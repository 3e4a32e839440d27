import InferenceFleet.Time.Calendar
import InferenceFleet.Decimal

/-!
# Instants

An `Instant` counts seconds from the start of 1970 in UTC, and nanoseconds within the second. In the
last second of a minute there may be up to two seconds' worth of them: that is a leap second. All
instants lie within the calendar's range. `Instant.print` writes an instant in UTC with the shortest
of 0, 3, 6 or 9 digits after the point.
-/

namespace InferenceFleet

namespace Instant

/-- The first second of the calendar's range. -/
def firstSecond : Int := Date.dayNumber { year := Date.firstYear, month := 1, day := 1 } * 86400

/-- The last second of the calendar's range. -/
def lastSecond : Int :=
  Date.dayNumber { year := Date.lastYear, month := 12, day := 31 } * 86400 + 86399

end Instant

structure Instant where
  seconds : Int
  nanos : Nat
  inRange : Instant.firstSecond ≤ seconds ∧ seconds ≤ Instant.lastSecond
  nanos_lt : nanos < 2000000000
  leap : 1000000000 ≤ nanos → seconds % 60 = 59
  deriving DecidableEq

namespace Instant

/-- The instant with these parts, if there is one. -/
def ofParts? (seconds : Int) (nanos : Nat) : Option Instant :=
  if h : (firstSecond ≤ seconds ∧ seconds ≤ lastSecond) ∧ nanos < 2000000000 ∧
      (1000000000 ≤ nanos → seconds % 60 = 59) then
    some { seconds, nanos, inRange := h.1, nanos_lt := h.2.1, leap := h.2.2 }
  else none

/-- In the order of the clock; within a second, a leap second is after what comes before it. -/
instance : LE Instant where
  le s t := s.seconds < t.seconds ∨ s.seconds = t.seconds ∧ s.nanos ≤ t.nanos

instance (s t : Instant) : Decidable (s ≤ t) := inferInstanceAs (Decidable (_ ∨ _))

/-- Nanoseconds from the start of 1970. -/
def toNanos (t : Instant) : Int := t.seconds * 1000000000 + t.nanos

/-- The instant so many nanoseconds after the start of 1970; the seconds stop at the ends of the
calendar's range. -/
def ofNanos (n : Int) : Instant where
  seconds := max firstSecond (min lastSecond (n / 1000000000))
  nanos := (n % 1000000000).toNat
  inRange := ⟨Int.le_max_left .., Int.max_le.2 ⟨by decide, Int.min_le_left ..⟩⟩
  nanos_lt := by omega
  leap := by omega

/-- How many nanoseconds `t` is after `s`; a leap second is counted as the second after it. -/
def since (t s : Instant) : Int := t.toNanos - s.toNanos

/-- Whole seconds from the start of 1970. -/
def unixSeconds (t : Instant) : Int := t.seconds

/-- Years of four digits stand alone, others have a sign. -/
def printYear (year : Int) : String :=
  if 0 ≤ year ∧ year ≤ 9999 then paddedDecimal 4 year.natAbs
  else (if year < 0 then "-" else "+") ++ paddedDecimal 4 year.natAbs

def printFraction (nanos : Nat) : String :=
  if nanos = 0 then ""
  else if nanos % 1000000 = 0 then "." ++ paddedDecimal 3 (nanos / 1000000)
  else if nanos % 1000 = 0 then "." ++ paddedDecimal 6 (nanos / 1000)
  else "." ++ paddedDecimal 9 nanos

def print (t : Instant) : String :=
  let date := Date.ofDayNumber (t.seconds / 86400)
  let second := (t.seconds % 86400).toNat
  let isLeap := 1000000000 ≤ t.nanos
  printYear date.year ++ "-" ++ paddedDecimal 2 date.month ++ "-" ++ paddedDecimal 2 date.day ++
    "T" ++ paddedDecimal 2 (second / 3600) ++ ":" ++ paddedDecimal 2 (second / 60 % 60) ++ ":" ++
    paddedDecimal 2 (second % 60 + if isLeap then 1 else 0) ++
    printFraction (if isLeap then t.nanos - 1000000000 else t.nanos) ++ "Z"

end Instant

end InferenceFleet
