/-!
Natural numbers in decimal: the digits that write a number, most significant first and without
leading zeros, and the number that a row of digits stands for. Reading what was written gives the
number back.
-/

namespace BuildPipeline.Text.Decimal

/-- The value of a row of digits. -/
def value (ds : List Nat) : Nat :=
  ds.foldl (fun n d => 10 * n + d) 0

/-- The greatest number of 64 bits. -/
def wordLimit : Nat :=
  UInt64.size - 1

/-- The digits of a number; zero has the one digit 0. -/
def digits (n : Nat) : List Nat :=
  if n < 10 then [n] else digits (n / 10) ++ [n % 10]

/-- The character of a digit. -/
def digitChar (d : Nat) : Char :=
  Char.ofNat (48 + d)

/-- The digit of a character, if it is one of the ten. -/
def digit? (c : Char) : Option Nat :=
  if c.isDigit then some (c.toNat - 48) else none

/-- A number in decimal. -/
def write (n : Nat) : List Char :=
  (digits n).map digitChar

/-- A number in decimal, with zeros in front up to a width. -/
def writePadded (width n : Nat) : List Char :=
  let cs := write n
  List.replicate (width - cs.length) '0' ++ cs

/-- Splits off the digits at the front of a text. -/
def spanDigits : List Char → List Nat × List Char
  | [] => ([], [])
  | c :: rest =>
    match digit? c with
    | some d => let (ds, after) := spanDigits rest; (d :: ds, after)
    | none => ([], c :: rest)

theorem value_append_singleton (ds : List Nat) (d : Nat) :
    value (ds ++ [d]) = 10 * value ds + d := by
  simp [value]

theorem value_digits (n : Nat) : value (digits n) = n := by
  induction n using digits.induct with
  | case1 n h => simp [digits, h, value]
  | case2 n h ih =>
    rw [digits, if_neg h, value_append_singleton, ih]
    omega

theorem digit_lt_of_mem_digits {n d : Nat} (h : d ∈ digits n) : d < 10 := by
  induction n using digits.induct with
  | case1 n hn => simp [digits, hn] at h; omega
  | case2 n hn ih =>
    rw [digits, if_neg hn] at h
    rcases List.mem_append.1 h with h | h
    · exact ih h
    · have := List.mem_singleton.1 h
      omega

theorem digits_ne_nil (n : Nat) : digits n ≠ [] := by
  rw [digits]; split <;> simp

end BuildPipeline.Text.Decimal
