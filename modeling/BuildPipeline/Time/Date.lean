/-!
Dates of the Gregorian calendar, carried back before its introduction, with a year 0 and negative
years before it. A date is held by its year, month and day, so two dates are equal exactly when
they are written alike. Calendar arithmetic goes from day to day; a longer way is covered in whole
cycles of 400 years, which all have the same number of days.
-/

namespace BuildPipeline.Time

/-- A year has a 29 February when it is divisible by 4, but of the full centuries only those
divisible by 400. -/
def isLeap (year : Int) : Bool :=
  year % 4 == 0 && (year % 100 != 0 || year % 400 == 0)

/-- The number of days of a month, counted from 1. -/
def daysIn (year : Int) (month : Nat) : Nat :=
  match month with
  | 2 => if isLeap year then 29 else 28
  | 4 | 6 | 9 | 11 => 30
  | _ => 31

/-- The first year that a date may have. -/
def firstYear : Int := -262143

/-- The last year that a date may have. -/
def lastYear : Int := 262142

/-- The dates that exist, in the years that are kept. -/
def isDate (year : Int) (month day : Nat) : Bool :=
  firstYear ≤ year && year ≤ lastYear && 1 ≤ month && month ≤ 12 && 1 ≤ day &&
    day ≤ daysIn year month

/-- A calendar date. -/
structure Date where
  year : Int
  month : Nat
  day : Nat
  exists_ : isDate year month day = true
  deriving DecidableEq

namespace Date

/-- The date of a year, month and day, if there is one. -/
def ofParts? (year : Int) (month day : Nat) : Option Date :=
  if h : isDate year month day = true then some ⟨year, month, day, h⟩ else none

/-- The day after, if it is still in the years that are kept. -/
def next? (d : Date) : Option Date :=
  if d.day < daysIn d.year d.month then ofParts? d.year d.month (d.day + 1)
  else if d.month < 12 then ofParts? d.year (d.month + 1) 1
  else ofParts? (d.year + 1) 1 1

/-- The day before, if it is still in the years that are kept. -/
def previous? (d : Date) : Option Date :=
  if 1 < d.day then ofParts? d.year d.month (d.day - 1)
  else if 1 < d.month then ofParts? d.year (d.month - 1) (daysIn d.year (d.month - 1))
  else ofParts? (d.year - 1) 12 31

/-- The days of 400 years. -/
def cycleDays : Nat := 146097

/-- The date `n` days later. -/
def after? (d : Date) (n : Nat) : Option Date :=
  let cycles := n / cycleDays
  let start := if cycles = 0 then some d else ofParts? (d.year + 400 * cycles) d.month d.day
  go (n % cycleDays) start
where
  /-- Goes on day by day. -/
  go : Nat → Option Date → Option Date
    | 0, d => d
    | n + 1, d => go n (d.bind next?)

end Date
end BuildPipeline.Time
