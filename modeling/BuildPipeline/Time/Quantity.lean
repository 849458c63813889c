import BuildPipeline.Text.Blank
import BuildPipeline.Text.Decimal
import BuildPipeline.Time.Span

/-!
Spans of time as text, such as `1h 30m` or `1.5 hours`: a row of quantities, each a number and a
unit, whose sum is meant. White space may stand in front of the row, inside a number, between a
number and its unit and between two quantities. A plain `0` needs no unit.

Numbers and sums are bounded: what does not fit in 64 bits is refused and never wrapped around.
A fraction counts in nanoseconds for the units up to the minute, and in whole seconds for the longer
ones. It has to come out even there: a fraction that leaves a part of a nanosecond, or of a second,
is refused.
-/

namespace BuildPipeline.Time

/-- A unit of time. -/
inductive TimeUnit where
  | nanosecond
  | microsecond
  | millisecond
  | second
  | minute
  | hour
  | day
  | week
  | month
  | year
  deriving DecidableEq, Repr

namespace TimeUnit

/-- Every unit with the names that it goes by. -/
def names : List (TimeUnit × List String) :=
  [(.nanosecond, ["nanos", "nsec", "ns"]),
   (.microsecond, ["usec", "us", "µs"]),
   (.millisecond, ["millis", "msec", "ms"]),
   (.second, ["seconds", "second", "secs", "sec", "s"]),
   (.minute, ["minutes", "minute", "mins", "min", "m"]),
   (.hour, ["hours", "hour", "hrs", "hr", "h"]),
   (.day, ["days", "day", "d"]),
   (.week, ["weeks", "week", "wks", "wk", "w"]),
   (.month, ["months", "month", "M"]),
   (.year, ["years", "year", "yrs", "yr", "y"])]

/-- The unit that a name stands for; case matters. -/
def ofName? (name : String) : Option TimeUnit :=
  (names.find? fun entry => entry.2.contains name).map (·.1)

/-- The scale in which a unit is counted. -/
inductive Scale where
  /-- So many nanoseconds. -/
  | nanos (n : Nat)
  /-- So many seconds. -/
  | seconds (n : Nat)
  deriving DecidableEq, Repr

/-- The length of a unit when whole units are counted. A month is a twelfth of a year, and a year
has 365.25 days. -/
def whole : TimeUnit → Scale
  | nanosecond => .nanos 1
  | microsecond => .nanos 1000
  | millisecond => .nanos 1000000
  | second => .seconds 1
  | minute => .seconds 60
  | hour => .seconds 3600
  | day => .seconds 86400
  | week => .seconds 604800
  | month => .seconds 2630016
  | year => .seconds 31557600

/-- The length of a unit when parts of it are counted; a nanosecond has none. -/
def part? : TimeUnit → Option Scale
  | nanosecond => none
  | microsecond => some (.nanos 1000)
  | millisecond => some (.nanos 1000000)
  | second => some (.nanos 1000000000)
  | minute => some (.nanos 60000000000)
  | unit => some unit.whole

end TimeUnit

/-- The part of a number behind its point, as a row of digits. -/
abbrev Places := List Nat

/-- A number of units: the whole ones and the places behind the point, if there is one. -/
structure Quantity where
  whole : Nat
  places : Option Places
  unit : TimeUnit
  deriving DecidableEq, Repr

/-- A number that fits in 64 bits. -/
def fits? (n : Nat) : Option Nat :=
  if n ≤ Text.Decimal.wordLimit then some n else none

/-- A quotient without a remainder. -/
def evenly? (n d : Nat) : Option Nat :=
  if n % d = 0 then some (n / d) else none

namespace Span

/-- A span with seconds and nanoseconds on top, as long as both sums stay in range. -/
def addParts? (s : Span) (seconds nanos : Nat) : Option Span := do
  let nanos ← fits? (s.subseconds + nanos)
  let seconds ← fits? (s.seconds + seconds + nanos / 1000000000)
  return ofSeconds seconds (nanos % 1000000000)

/-- A span with `n / d` of a unit on top. The product of `n` with the unit's length has to fit, and
`d` has to divide it. -/
def addScaled? (s : Span) (n d : Nat) : TimeUnit.Scale → Option Span
  | .nanos factor => do s.addParts? 0 (← evenly? (← fits? (n * factor)) d)
  | .seconds factor => do s.addParts? (← evenly? (← fits? (n * factor)) d) 0

/-- A span with a quantity on top. -/
def addQuantity? (s : Span) (q : Quantity) : Option Span := do
  let s ← s.addScaled? q.whole 1 q.unit.whole
  match q.places with
  | none => return s
  | some places =>
    s.addScaled? (Text.Decimal.value places) (Nat.pow 10 places.length) (← q.unit.part?)

end Span

namespace Quantity

open Text (isSpace)

/-- Letters that a unit is written with. -/
def isUnitLetter (c : Char) : Bool :=
  c.isAlpha || c == 'µ'

/-- Digits and the white space that may stand between them. -/
def isNumberPart (c : Char) : Bool :=
  c.isDigit || isSpace c

/-- The digits among some characters. -/
def digitsIn (cs : List Char) : List Nat :=
  cs.filterMap Text.Decimal.digit?

/-- The number at the front of a text that begins with one of its digits. -/
def number? (cs : List Char) : Option (Nat × List Char) :=
  match cs with
  | c :: _ =>
    if c.isDigit then
      (fits? (Text.Decimal.value (digitsIn (cs.takeWhile isNumberPart)))).map
        fun n => (n, cs.dropWhile isNumberPart)
    else none
  | [] => none

/-- The places behind a point, if there is one: at least one digit, and few enough that the number
of parts fits in 64 bits. -/
def places? : List Char → Option (Option Places × List Char)
  | '.' :: rest =>
    let ds := digitsIn (rest.takeWhile isNumberPart)
    if ds.isEmpty then none
    else (fits? (Nat.pow 10 ds.length)).map fun _ => (some ds, rest.dropWhile isNumberPart)
  | rest => some (none, rest)

/-- The unit at the front. -/
def unit? (cs : List Char) : Option (TimeUnit × List Char) :=
  (TimeUnit.ofName? (String.ofList (cs.takeWhile isUnitLetter))).map
    fun unit => (unit, cs.dropWhile isUnitLetter)

/-- Reads the quantity at the front, which begins with a digit. -/
def read? (cs : List Char) : Option (Quantity × List Char) :=
  (number? cs).bind fun (whole, afterWhole) =>
  (places? afterWhole).bind fun (places, afterPlaces) =>
  (unit? afterPlaces).map fun (unit, after) => (⟨whole, places, unit⟩, after)

theorem length_dropWhile_le (p : Char → Bool) (cs : List Char) :
    (cs.dropWhile p).length ≤ cs.length :=
  (List.dropWhile_sublist p).length_le

theorem length_of_number?_eq_some {cs after : List Char} {n : Nat}
    (h : number? cs = some (n, after)) : after.length < cs.length := by
  unfold number? at h
  split at h
  · rename_i c rest
    split at h
    · rename_i digit
      simp only [Option.map_eq_some_iff, Prod.mk.injEq] at h
      obtain ⟨_, _, _, rfl⟩ := h
      have := length_dropWhile_le isNumberPart rest
      rw [List.dropWhile_cons_of_pos (by simp [isNumberPart, digit]), List.length_cons]
      omega
    · simp at h
  · simp at h

theorem length_of_places?_eq_some {cs after : List Char} {ds : Option Places}
    (h : places? cs = some (ds, after)) : after.length ≤ cs.length := by
  unfold places? at h
  split at h
  · rename_i rest
    have := length_dropWhile_le isNumberPart rest
    simp only at h
    split at h
    · simp at h
    · simp only [Option.map_eq_some_iff, Prod.mk.injEq] at h
      obtain ⟨_, _, _, rfl⟩ := h
      rw [List.length_cons]
      omega
  · simp_all

theorem length_of_read?_eq_some {cs after : List Char} {q : Quantity}
    (h : read? cs = some (q, after)) : after.length < cs.length := by
  simp only [read?, unit?, Option.bind_eq_some_iff, Option.map_eq_some_iff, Prod.exists,
    Prod.mk.injEq] at h
  obtain ⟨_, _, whole, _, afterPlaces, places, _, _, ⟨_, _, _, rfl⟩, _, rfl⟩ := h
  have := length_of_number?_eq_some whole
  have := length_of_places?_eq_some places
  have := length_dropWhile_le isUnitLetter afterPlaces
  omega

/-- The span of the quantities in a text on top of a span, up to the end of the text. -/
def sum? (s : Span) (cs : List Char) : Option Span :=
  match _h : read? cs with
  | none => none
  | some (q, after) =>
    let next := after.dropWhile isSpace
    match s.addQuantity? q with
    | none => none
    | some s => if next.isEmpty then some s else sum? s next
termination_by cs.length
decreasing_by
  have := length_of_read?_eq_some _h
  have := length_dropWhile_le isSpace after
  omega

end Quantity

/-- Reads a span of time. -/
def Span.parse? (text : String) : Option Span :=
  if text = "0" then some ⟨0⟩ else Quantity.sum? ⟨0⟩ (text.toList.dropWhile Text.isSpace)

end BuildPipeline.Time
