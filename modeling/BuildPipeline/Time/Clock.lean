import BuildPipeline.Time.Moment
import BuildPipeline.Time.Span

/-!
A clock that is moved by hand. It shows the time since it was made, by which deadlines are set, and
the moment in the calendar, by which builds are stamped. Both move together.
-/

namespace BuildPipeline.Time

/-- A clock: the moment at which it was made and the time since then. -/
structure Clock where
  made : Moment := Moment.origin
  elapsed : Span := ⟨0⟩
  deriving DecidableEq

namespace Clock

/-- Moves the clock on. -/
def advance (c : Clock) (by_ : Span) : Clock :=
  { c with elapsed := c.elapsed + by_ }

/-- The longest time that the calendar can follow, 2^63 - 1 milliseconds. -/
def longest : Span :=
  .ofMillis 9223372036854775807

/-- The time by which the calendar has moved. A time beyond what the calendar can follow counts as
none. -/
def calendarElapsed (c : Clock) : Span :=
  if c.elapsed.nanos ≤ longest.nanos then c.elapsed else ⟨0⟩

/-- The moment that the clock shows. Where the calendar has no such moment the clock shows the one
at which it was made, so that every clock shows one; a program that has to go beyond the calendar
stops. -/
def now (c : Clock) : Moment :=
  (c.made.after? c.calendarElapsed.nanos).getD c.made

end Clock
end BuildPipeline.Time
