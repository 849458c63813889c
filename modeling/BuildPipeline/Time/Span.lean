/-!
Spans of time in nanoseconds.
-/

namespace BuildPipeline.Time

/-- A span of time. -/
structure Span where
  nanos : Nat
  deriving DecidableEq, Repr

namespace Span

/-- The span of a number of milliseconds. -/
def ofMillis (n : Nat) : Span :=
  ⟨n * 1000000⟩

/-- The span of a number of seconds and of nanoseconds on top of them. -/
def ofSeconds (seconds nanos : Nat) : Span :=
  ⟨seconds * 1000000000 + nanos⟩

/-- The whole seconds of a span. -/
def seconds (s : Span) : Nat :=
  s.nanos / 1000000000

/-- The nanoseconds of a span behind its whole seconds. -/
def subseconds (s : Span) : Nat :=
  s.nanos % 1000000000

/-- The whole milliseconds of a span. -/
def millis (s : Span) : Nat :=
  s.nanos / 1000000

/-- One span after the other. There is no longest span here, while the readings of a system clock
have a last one: a program that has to go beyond it stops. -/
def add (s t : Span) : Span :=
  ⟨s.nanos + t.nanos⟩

instance : Add Span := ⟨add⟩

end Span
end BuildPipeline.Time
