import BuildPipeline.Binary64

/-!
Numbers as they stand in a JSON text. A number of 64 bits without sign, fraction and exponent is
natural; all others are kept by the digits that fit in 64 bits and the power of ten that scales
them, without sign, as only their size matters here.

A number is in range when it is finite as a product in binary floating point: its digits and the
power of ten are rounded each by itself, and the product is rounded again. Near the largest finite
number this refuses some numbers that would round to it as a whole.
-/

namespace BuildPipeline.Json

/-- A number that was read. -/
inductive Numeral where
  | natural (n : Nat)
  | scaled (significand : Nat) (exponent : Int)
  deriving DecidableEq, Repr

namespace Numeral

open Text.Decimal (wordLimit)

/-- Appends digits to a number as long as it stays within 64 bits. Gives the number, and how many
digits were left over. -/
def absorb (n : Nat) : List Nat → Nat × Nat
  | [] => (n, 0)
  | d :: ds => if 10 * n + d ≤ wordLimit then absorb (10 * n + d) ds else (n, ds.length + 1)

/-- The number of some digits before the point and some behind it, scaled by a power of ten. Digits
left over before the point raise the power, and those left over behind it have no weight. -/
def ofDigits (whole places : List Nat) (exponent : Int) : Numeral :=
  let (n, excess) := absorb 0 whole
  let (significand, dropped) := absorb n places
  scaled significand (exponent + excess + dropped - places.length)

/-- The number of some digits alone. -/
def ofWhole (whole : List Nat) : Numeral :=
  match absorb 0 whole with
  | (n, 0) => natural n
  | _ => ofDigits whole [] 0

/-- The greatest power of ten by which a number is scaled up. -/
def greatestPower : Nat := 308

/-- Whether the number is in range. Scaling down never leaves it. -/
def inRange : Numeral → Bool
  | natural _ => true
  | scaled significand exponent =>
    if significand = 0 ∨ exponent ≤ 0 then true
    else if greatestPower < exponent then false
    else Binary64.isFinite
      (Binary64.round significand * Binary64.round (Nat.pow 10 exponent.toNat))

end Numeral
end BuildPipeline.Json
