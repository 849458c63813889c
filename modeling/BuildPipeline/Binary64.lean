import BuildPipeline.Text.Decimal

/-!
Magnitudes in binary floating point of 64 bits, as far as the range of a decimal number depends on
them. A natural number is rounded to 53 significant bits, a tie going to the even neighbour, and is
finite as long as it does not round to 2 to the power 1024. Numbers below 2 to the power 53 are kept
exactly.

Whether a decimal number is in range is decided on natural numbers alone: as it stands, it is
compared with the least magnitude that rounds to infinity.
-/

namespace BuildPipeline.Binary64

/-- A quotient rounded to the nearest whole number; a tie goes to the even neighbour. -/
def roundDiv (n d : Nat) : Nat :=
  let q := n / d
  let twice := 2 * (n % d)
  if d < twice ∨ (twice = d ∧ q % 2 = 1) then q + 1 else q

/-- The distance between the numbers that can be kept around `n`. -/
def spacing (n : Nat) : Nat :=
  Nat.pow 2 (n.log2 - 52)

/-- A natural number rounded to 53 significant bits. -/
def round (n : Nat) : Nat :=
  roundDiv n (spacing n) * spacing n

/-- The least magnitude that rounds to infinity: half a unit above the largest finite number. -/
def bound : Nat :=
  Nat.pow 2 1024 - Nat.pow 2 970

/-- Whether a magnitude rounds to a finite number. -/
def isFinite (n : Nat) : Bool :=
  n < bound

/-- Whether `significand * 10 ^ exponent` rounds to a finite number. The number of digits before
the point decides all but the close cases, so no large power is formed. -/
def decimalIsFinite (significand : Nat) (exponent : Int) : Bool :=
  let places : Int := (Text.Decimal.digits significand).length + exponent
  if significand = 0 then true
  else if places ≤ 308 then true
  else if 309 < places then false
  else if 0 ≤ exponent then isFinite (significand * Nat.pow 10 exponent.toNat)
  else significand < bound * Nat.pow 10 (-exponent).toNat

end BuildPipeline.Binary64
