import BuildPipeline.Text.Blank
import BuildPipeline.Text.Decimal
import BuildPipeline.Time.Moment

/-!
Moments as text. A moment is written in UTC as `2023-11-14T22:13:20Z`, with as many groups of three
decimal places as its fraction needs and with a sign before a year that does not have four digits.

Reading is lenient: white space may stand before every number and mark, numbers may lack leading
zeros, the separator of date and time may be a small `t` or a space, and any offset below a day is
taken, also as `UTC`, `z` or without its colon. The moment that was meant is held in UTC.
-/

namespace BuildPipeline.Time

open Text (Decimal.write Decimal.writePadded Decimal.spanDigits Decimal.value isSpace)

namespace Moment

/-! ## Writing -/

/-- A year: four digits, or a sign and at least four. -/
def writeYear (year : Int) : List Char :=
  if 0 ≤ year ∧ year ≤ 9999 then Decimal.writePadded 4 year.toNat
  else (if year < 0 then '-' else '+') :: Decimal.writePadded 4 year.natAbs

/-- The fraction of a second in the fewest of 0, 3, 6 and 9 places that are exact. -/
def writeFraction (nanos : Nat) : List Char :=
  if nanos = 0 then []
  else if nanos % 1000000 = 0 then '.' :: Decimal.writePadded 3 (nanos / 1000000)
  else if nanos % 1000 = 0 then '.' :: Decimal.writePadded 6 (nanos / 1000)
  else '.' :: Decimal.writePadded 9 nanos

/-- The text of a moment. -/
def write (m : Moment) : List Char :=
  let two := Decimal.writePadded 2
  writeYear m.date.year ++ '-' :: two m.date.month ++ '-' :: two m.date.day ++
    'T' :: two m.hour ++ ':' :: two m.minute ++ ':' :: two m.second ++
    writeFraction m.nanos ++ ['Z']

/-- The text of a moment. -/
def text (m : Moment) : String :=
  String.ofList m.write

/-! ## Reading -/

/-- The text without the white space in front. -/
def skipSpace (cs : List Char) : List Char :=
  cs.dropWhile isSpace

/-- Passes over a mark. -/
def expect? (mark : Char) : List Char → Option (List Char)
  | c :: rest => if c = mark then some rest else none
  | [] => none

/-- Digits at the front, at least one and at most `most`. -/
def digits? (most : Nat) (cs : List Char) : Option (List Nat × List Char) :=
  let found := (Decimal.spanDigits (cs.take most)).1
  if found.isEmpty then none else some (found, cs.drop found.length)

/-- A number of at most two digits behind optional white space. -/
def twoDigits? (cs : List Char) : Option (Nat × List Char) :=
  (digits? 2 (skipSpace cs)).map fun (ds, rest) => (Decimal.value ds, rest)

/-- A year: at most four digits, or a sign and any number of digits. -/
def year? (cs : List Char) : Option (Int × List Char) :=
  match skipSpace cs with
  | '-' :: rest =>
    (digits? rest.length rest).map fun (ds, rest) => (-(Decimal.value ds : Int), rest)
  | '+' :: rest =>
    (digits? rest.length rest).map fun (ds, rest) => ((Decimal.value ds : Int), rest)
  | rest => (digits? 4 rest).map fun (ds, rest) => ((Decimal.value ds : Int), rest)

/-- A date. -/
def date? (cs : List Char) : Option (Date × List Char) := do
  let (year, cs) ← year? cs
  let (month, cs) ← twoDigits? (← expect? '-' (skipSpace cs))
  let (day, cs) ← twoDigits? (← expect? '-' (skipSpace cs))
  return (← Date.ofParts? year month day, cs)

/-- The one character between date and time. -/
def separator? : List Char → Option (List Char)
  | c :: rest => if c = 'T' ∨ c = 't' ∨ c = ' ' then some rest else none
  | [] => none

/-- The nanoseconds of a row of decimal places; places behind the ninth are dropped. -/
def nanosOfPlaces (ds : List Nat) : Nat :=
  Decimal.value (ds.take 9 ++ List.replicate (9 - ds.length) 0)

/-- The nanoseconds of a fraction, if there is one. -/
def fraction? : List Char → Option (Nat × List Char)
  | '.' :: rest => (digits? rest.length rest).map fun (ds, rest) => (nanosOfPlaces ds, rest)
  | rest => some (0, rest)

/-- The two digits at the very front. -/
def pair? : List Char → Option (Nat × List Char)
  | a :: b :: rest => do
    return (10 * (← Text.Decimal.digit? a) + (← Text.Decimal.digit? b), rest)
  | _ => none

/-- The minutes of an offset behind its sign. -/
def offsetMinutes? (cs : List Char) : Option (Int × List Char) := do
  let (hours, cs) ← pair? cs
  let (minutes, cs) ← pair? (cs.dropWhile fun c => c = ':' || isSpace c)
  if minutes < 60 ∧ hours < 24 then return ((60 * hours + minutes : Nat), cs) else none

/-- The offset of the zone in minutes. -/
def offset? (cs : List Char) : Option (Int × List Char) :=
  match cs with
  | 'Z' :: rest | 'z' :: rest => some (0, rest)
  | '+' :: rest => offsetMinutes? rest
  | '-' :: rest | '−' :: rest => (offsetMinutes? rest).map fun (n, rest) => (-n, rest)
  | a :: b :: c :: rest =>
    if [a, b, c].map Char.toUpper = ['U', 'T', 'C'] then some (0, rest) else none
  | _ => none

/-- Reads a moment. -/
def read? (cs : List Char) : Option Moment := do
  let (date, cs) ← date? cs
  let (hour, cs) ← twoDigits? (← separator? cs)
  let (minute, cs) ← twoDigits? (← expect? ':' (skipSpace cs))
  let (second, cs) ← twoDigits? (← expect? ':' (skipSpace cs))
  let (nanos, cs) ← fraction? cs
  let (offset, cs) ← offset? (skipSpace cs)
  if (skipSpace cs).isEmpty then
    let shown ← ofParts? date hour minute second nanos
    if offset = 0 then return shown else shown.withOffset? offset
  else none

/-- Reads a moment. -/
def parse? (s : String) : Option Moment :=
  read? s.toList

end Moment
end BuildPipeline.Time
