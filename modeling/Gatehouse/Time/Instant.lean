import Gatehouse.Time.Calendar

/-!
# Instants

A point in time two ways: as a UTC date with the time of the day, which records hold and log names
show, and as seconds and nanoseconds since 1970-01-01, which the recording format counts in.
-/

namespace Gatehouse.Time

/-- What makes two numbers a time of the day: the second of the day, and the nanoseconds within it.
A leap second is counted as the second nanosecond billion of the last second of a minute. -/
def IsClock (second nano : Nat) : Prop :=
  second < 86400 ∧ nano < 2000000000 ∧ (nano < 1000000000 ∨ second % 60 = 59)

instance (second nano : Nat) : Decidable (IsClock second nano) := by
  unfold IsClock; infer_instance

/-- A UTC date and time of the day. -/
structure Instant where
  date : Date
  second : Nat
  nano : Nat
  isClock : IsClock second nano
deriving DecidableEq

/-- A count of seconds since 1970-01-01, negative before it, and the nanoseconds on top of it. -/
structure Unix where
  seconds : Int
  nanos : Nat
deriving DecidableEq, Repr

/-- The same point in time with less than a whole second of nanoseconds. -/
def Unix.carried (t : Unix) : Unix :=
  ⟨t.seconds + t.nanos / 1000000000, t.nanos % 1000000000⟩

namespace Instant

/-- The instant with these parts, if they make one. -/
def of? (date : Date) (second nano : Nat) : Option Instant :=
  if h : IsClock second nano then some ⟨date, second, nano, h⟩ else none

/-- The position of an instant in the order of time. -/
def rank (t : Instant) : Int :=
  (((t.date.year * 12 + t.date.month) * 31 + t.date.day) * 86400 + t.second) * 2000000000 + t.nano

/-- Whether `t` is strictly earlier than `u`. -/
def isBefore (t u : Instant) : Bool :=
  t.rank < u.rank

/-- 1970-01-01T00:00:00Z. -/
def epoch : Instant := ⟨Date.epoch, 0, 0, by decide⟩

instance : Inhabited Instant := ⟨epoch⟩

/-- The instant at a count of seconds, if the calendar reaches it. -/
def ofUnix? (t : Unix) : Option Instant := do
  let date ← Date.ofDays? (t.seconds / 86400)
  of? date (t.seconds % 86400).toNat t.nanos

end Instant

end Gatehouse.Time
