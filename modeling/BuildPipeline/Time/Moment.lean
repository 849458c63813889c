import BuildPipeline.Time.Date

/-!
A moment: a date and a time of day in UTC, down to the nanosecond. The second 60 of a leap second
is kept as it was read. A moment is held by what is written of it, so that equal moments are
written alike and what is written reads back as the same moment.
-/

namespace BuildPipeline.Time

/-- Nanoseconds in a second. -/
def nanosPerSecond : Nat := 1000000000

/-- The times that a day has; a minute may have a second 60. -/
def isTimeOfDay (hour minute second nanos : Nat) : Bool :=
  hour < 24 && minute < 60 && second ≤ 60 && nanos < nanosPerSecond

/-- A date and a time of day in UTC. -/
structure Moment where
  date : Date
  hour : Nat
  minute : Nat
  second : Nat
  nanos : Nat
  exists_ : isTimeOfDay hour minute second nanos = true
  deriving DecidableEq

namespace Moment

/-- The moment of a date and a time of day, if the day has this time. -/
def ofParts? (date : Date) (hour minute second nanos : Nat) : Option Moment :=
  if h : isTimeOfDay hour minute second nanos = true then
    some ⟨date, hour, minute, second, nanos, h⟩
  else none

/-- The moment that clocks `offset` minutes ahead of UTC show as `m`. Offsets stay below a day, so
at most one midnight lies between. -/
def withOffset? (m : Moment) (offset : Int) : Option Moment := do
  let minutes : Int := 60 * m.hour + m.minute - offset
  let date ←
    if minutes < 0 then m.date.previous?
    else if minutes < 1440 then some m.date
    else m.date.next?
  let minute := (minutes % 1440).toNat
  ofParts? date (minute / 60) (minute % 60) m.second m.nanos

/-- The moment `n` nanoseconds later, in days of 86400 seconds. -/
def after? (m : Moment) (n : Nat) : Option Moment := do
  let nanos := m.nanos + n
  let seconds := 3600 * m.hour + 60 * m.minute + m.second + nanos / nanosPerSecond
  let date ← m.date.after? (seconds / 86400)
  let second := seconds % 86400
  ofParts? date (second / 3600) (second / 60 % 60) (second % 60) (nanos % nanosPerSecond)

/-- The moment at which the clock of a fresh engine stands: 2023-11-14T22:13:20Z. -/
def origin : Moment :=
  ⟨⟨2023, 11, 14, by decide⟩, 22, 13, 20, 0, by decide⟩

end Moment
end BuildPipeline.Time
