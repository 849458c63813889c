import BuildPipeline.Json.Numeral

/-!
A JSON text as a row of lexemes. The text is a row of bytes. Lexing stops at the first byte that
begins no lexeme: the row then ends with a fault. A string is well formed as a lexeme when its
escapes are; whether it also stands for text is told apart, because a string that nobody reads need
not do so.
-/

namespace BuildPipeline.Json

/-- A lexical unit. The text of a string is missing where its escapes hold half of a surrogate
pair or its bytes are not UTF-8. -/
inductive Lexeme where
  | arrayOpen
  | arrayClose
  | objectOpen
  | objectClose
  | comma
  | colon
  | null
  | bool (b : Bool)
  | number (n : Numeral)
  | text (s : Option String)
  | fault
  deriving DecidableEq, Repr

namespace Lexeme

/-- The byte of an ASCII character. -/
def byte (c : Char) : UInt8 :=
  c.toNat.toUInt8

/-- The white space of JSON: space, tab and the two line ends. -/
def isSpace (b : UInt8) : Bool :=
  b == 0x20 || b == 0x09 || b == 0x0A || b == 0x0D

/-- The digit that a byte stands for. -/
def digit? (b : UInt8) : Option Nat :=
  if 0x30 ≤ b ∧ b ≤ 0x39 then some (b.toNat - 0x30) else none

/-- The hexadecimal digit that a byte stands for, in either case. -/
def hexDigit? (b : UInt8) : Option Nat :=
  if 0x30 ≤ b ∧ b ≤ 0x39 then some (b.toNat - 0x30)
  else if 0x41 ≤ b ∧ b ≤ 0x46 then some (b.toNat - 0x37)
  else if 0x61 ≤ b ∧ b ≤ 0x66 then some (b.toNat - 0x57)
  else none

/-- Four hexadecimal digits as a number. -/
def hexQuad? (a b c d : UInt8) : Option Nat := do
  return (((← hexDigit? a) * 16 + (← hexDigit? b)) * 16 + (← hexDigit? c)) * 16 + (← hexDigit? d)

/-! ## Strings -/

/-- A piece of the inside of a string: a byte, or a UTF-16 unit given by its number. -/
inductive Piece where
  | byte (b : UInt8)
  | unit (u : Nat)
  deriving DecidableEq, Repr

/-- The byte that a short escape stands for. -/
def shortEscape? (b : UInt8) : Option UInt8 :=
  if b = 0x22 ∨ b = 0x5C ∨ b = 0x2F then some b
  else if b = 0x62 then some 0x08
  else if b = 0x66 then some 0x0C
  else if b = 0x6E then some 0x0A
  else if b = 0x72 then some 0x0D
  else if b = 0x74 then some 0x09
  else none

/-- Reads from behind the opening quote up to the closing one; nothing if the string does not
close, holds a raw control character or an escape that does not exist. -/
def string? : List UInt8 → Option (List Piece × List UInt8)
  | [] => none
  | 0x22 :: rest => some ([], rest)
  | 0x5C :: 0x75 :: a :: b :: c :: d :: rest => do
    let u ← hexQuad? a b c d
    let (pieces, after) ← string? rest
    return (.unit u :: pieces, after)
  | 0x5C :: e :: rest => do
    let b ← shortEscape? e
    let (pieces, after) ← string? rest
    return (.byte b :: pieces, after)
  | b :: rest =>
    if b < 0x20 ∨ b = 0x5C then none
    else do
      let (pieces, after) ← string? rest
      return (.byte b :: pieces, after)

/-- Whether a UTF-16 unit opens a surrogate pair. -/
def isHigh (u : Nat) : Bool :=
  0xD800 ≤ u && u < 0xDC00

/-- Whether a UTF-16 unit closes a surrogate pair. -/
def isLow (u : Nat) : Bool :=
  0xDC00 ≤ u && u < 0xE000

/-- The UTF-8 bytes of a code point. -/
def utf8 (n : Nat) : List UInt8 :=
  String.utf8EncodeChar (Char.ofNat n)

/-- The bytes that the pieces stand for, if every surrogate is one of a pair. -/
def bytes? : List Piece → Option (List UInt8)
  | [] => some []
  | .byte b :: rest => (bytes? rest).map (b :: ·)
  | .unit high :: .unit low :: rest =>
    if isHigh high then
      if isLow low then
        (bytes? rest).map (utf8 (0x10000 + (high - 0xD800) * 0x400 + (low - 0xDC00)) ++ ·)
      else none
    else if isLow high then none
    else (bytes? (.unit low :: rest)).map (utf8 high ++ ·)
  | .unit u :: rest =>
    if isHigh u || isLow u then none else (bytes? rest).map (utf8 u ++ ·)

/-- The text that the pieces of a string stand for. -/
def text? (pieces : List Piece) : Option String := do
  String.fromUTF8? ⟨(← bytes? pieces).toArray⟩

/-! ## Numbers -/

/-- Splits off the digits at the front. -/
def spanDigits : List UInt8 → List Nat × List UInt8
  | [] => ([], [])
  | b :: rest =>
    match digit? b with
    | some d => let (ds, after) := spanDigits rest; (d :: ds, after)
    | none => ([], b :: rest)

/-- Digits at the front, at least one. -/
def digits? (bytes : List UInt8) : Option (List Nat × List UInt8) :=
  match spanDigits bytes with
  | ([], _) => none
  | (d :: ds, after) => some (d :: ds, after)

/-- Reads the whole part of a number: digits, of which a leading zero is the only one. -/
def whole? (bytes : List UInt8) : Option (List Nat × List UInt8) :=
  match digits? bytes with
  | some (0 :: _ :: _, _) => none
  | found => found

/-- Whether a minus sign stands in front, and what follows it. -/
def minus : List UInt8 → Bool × List UInt8
  | 0x2D :: rest => (true, rest)
  | bytes => (false, bytes)

/-- Whether a minus sign stands in front, and what follows the sign, which may be a plus. -/
def sign : List UInt8 → Bool × List UInt8
  | 0x2B :: rest => (false, rest)
  | bytes => minus bytes

/-- Reads the fraction of a number, if there is one: a point and at least one digit. -/
def fraction? : List UInt8 → Option (Option (List Nat) × List UInt8)
  | 0x2E :: rest => (digits? rest).map fun (ds, after) => (some ds, after)
  | bytes => some (none, bytes)

/-- Whether a byte opens an exponent. -/
def opensExponent (b : UInt8) : Bool :=
  b == 0x65 || b == 0x45

/-- Reads the exponent of a number, if there is one: a letter, an optional sign and at least one
digit. -/
def exponent? : List UInt8 → Option (Option Int × List UInt8)
  | [] => some (none, [])
  | b :: rest =>
    if opensExponent b then
      (digits? (sign rest).2).map fun (ds, after) =>
        let n : Int := Text.Decimal.value ds
        (some (if (sign rest).1 then -n else n), after)
    else some (none, b :: rest)

/-- The number that a whole part, a fraction and an exponent make. -/
def numeral (negative : Bool) (whole : List Nat) (fraction : Option (List Nat))
    (exponent : Option Int) : Numeral :=
  if !negative && fraction.isNone && exponent.isNone then .ofWhole whole
  else .ofDigits whole (fraction.getD []) (exponent.getD 0)

/-- Reads a number. -/
def number? (bytes : List UInt8) : Option (Numeral × List UInt8) :=
  (whole? (minus bytes).2).bind fun (whole, afterWhole) =>
  (fraction? afterWhole).bind fun (fraction, afterFraction) =>
  (exponent? afterFraction).map fun (exponent, after) =>
  (numeral (minus bytes).1 whole fraction exponent, after)

/-! ## Lexing -/

/-- Reads the one lexeme at the front of a text that begins with no white space. -/
def one? : List UInt8 → Option (Lexeme × List UInt8)
  | 0x5B :: rest => some (.arrayOpen, rest)
  | 0x5D :: rest => some (.arrayClose, rest)
  | 0x7B :: rest => some (.objectOpen, rest)
  | 0x7D :: rest => some (.objectClose, rest)
  | 0x2C :: rest => some (.comma, rest)
  | 0x3A :: rest => some (.colon, rest)
  | 0x6E :: 0x75 :: 0x6C :: 0x6C :: rest => some (.null, rest)
  | 0x74 :: 0x72 :: 0x75 :: 0x65 :: rest => some (.bool true, rest)
  | 0x66 :: 0x61 :: 0x6C :: 0x73 :: 0x65 :: rest => some (.bool false, rest)
  | 0x22 :: rest => (string? rest).map fun (pieces, after) => (.text (text? pieces), after)
  | bytes => (number? bytes).map fun (n, after) => (.number n, after)

theorem length_of_string?_eq_some {bytes after : List UInt8} {pieces : List Piece}
    (h : string? bytes = some (pieces, after)) : after.length < bytes.length := by
  fun_induction string? bytes generalizing pieces after with
  | case1 => cases h
  | case2 rest =>
    cases h
    exact Nat.lt_succ_self _
  | case3 a b c d rest ih =>
    simp only [Option.bind_eq_bind, Option.bind_eq_some_iff, Prod.exists] at h
    obtain ⟨u, -, pieces', after', inner, last⟩ := h
    cases last
    have shorter := ih inner
    simp only [List.length_cons]
    omega
  | case4 e rest other ih =>
    simp only [Option.bind_eq_bind, Option.bind_eq_some_iff, Prod.exists] at h
    obtain ⟨b, -, pieces', after', inner, last⟩ := h
    cases last
    have shorter := ih inner
    simp only [List.length_cons]
    omega
  | case5 => cases h
  | case6 b rest closes unit escape plain ih =>
    simp only [Option.bind_eq_bind, Option.bind_eq_some_iff, Prod.exists] at h
    obtain ⟨pieces', after', inner, last⟩ := h
    cases last
    exact Nat.lt_succ_of_lt (ih inner)

theorem length_spanDigits (bytes : List UInt8) :
    (spanDigits bytes).1.length + (spanDigits bytes).2.length = bytes.length := by
  fun_induction spanDigits bytes with
  | case1 => rfl
  | case2 b rest d digit ds after spanned ih =>
    have total : ds.length + after.length = rest.length := by simpa [spanned] using ih
    simp only [List.length_cons]
    omega
  | case3 => simp

theorem length_of_digits?_eq_some {bytes after : List UInt8} {ds : List Nat}
    (h : digits? bytes = some (ds, after)) : after.length < bytes.length := by
  have total := length_spanDigits bytes
  unfold digits? at h
  split at h
  · simp at h
  · rename_i heq
    simp only [Option.some.injEq, Prod.mk.injEq] at h
    rw [heq, h.2] at total
    simp at total
    omega

theorem length_of_whole?_eq_some {bytes after : List UInt8} {ds : List Nat}
    (h : whole? bytes = some (ds, after)) : after.length < bytes.length := by
  unfold whole? at h
  split at h
  · simp at h
  · exact length_of_digits?_eq_some h

theorem length_minus (bytes : List UInt8) : (minus bytes).2.length ≤ bytes.length := by
  unfold minus; split <;> simp

theorem length_sign (bytes : List UInt8) : (sign bytes).2.length ≤ bytes.length := by
  unfold sign
  split
  · simp
  · exact length_minus _

theorem length_of_fraction?_eq_some {bytes after : List UInt8} {ds : Option (List Nat)}
    (h : fraction? bytes = some (ds, after)) : after.length ≤ bytes.length := by
  unfold fraction? at h
  split at h
  · simp only [Option.map_eq_some_iff, Prod.exists, Prod.mk.injEq] at h
    obtain ⟨_, _, found, _, rfl⟩ := h
    have := length_of_digits?_eq_some found
    simp; omega
  · simp_all

theorem length_of_exponent?_eq_some {bytes after : List UInt8} {n : Option Int}
    (h : exponent? bytes = some (n, after)) : after.length ≤ bytes.length := by
  unfold exponent? at h
  split at h
  · simp_all
  · rename_i b rest
    split at h
    · simp only [Option.map_eq_some_iff, Prod.exists, Prod.mk.injEq] at h
      obtain ⟨_, _, found, _, rfl⟩ := h
      have := length_of_digits?_eq_some found
      have := length_sign rest
      simp; omega
    · simp_all

theorem length_of_number?_eq_some {bytes after : List UInt8} {n : Numeral}
    (h : number? bytes = some (n, after)) : after.length < bytes.length := by
  simp only [number?, Option.bind_eq_some_iff, Option.map_eq_some_iff, Prod.exists,
    Prod.mk.injEq] at h
  obtain ⟨_, _, whole, _, _, fraction, _, _, exponent, _, rfl⟩ := h
  have := length_minus bytes
  have := length_of_whole?_eq_some whole
  have := length_of_fraction?_eq_some fraction
  have := length_of_exponent?_eq_some exponent
  omega

theorem length_of_one?_eq_some {bytes after : List UInt8} {lexeme : Lexeme}
    (h : one? bytes = some (lexeme, after)) : after.length < bytes.length := by
  unfold one? at h
  split at h
  case h_10 =>
    simp only [Option.map_eq_some_iff, Prod.exists, Prod.mk.injEq] at h
    obtain ⟨_, _, found, _, rfl⟩ := h
    have := length_of_string?_eq_some found
    simp; omega
  case h_11 =>
    simp only [Option.map_eq_some_iff, Prod.exists, Prod.mk.injEq] at h
    obtain ⟨_, _, found, _, rfl⟩ := h
    exact length_of_number?_eq_some found
  all_goals (simp only [Option.some.injEq, Prod.mk.injEq] at h; grind)

/-- The lexemes of a text, up to the first fault. -/
def ofBytes (bytes : List UInt8) : List Lexeme :=
  match bytes with
  | [] => []
  | b :: rest =>
    if isSpace b then ofBytes rest
    else
      match _h : one? (b :: rest) with
      | none => [.fault]
      | some (lexeme, after) => lexeme :: ofBytes after
termination_by bytes.length
decreasing_by
  · simp
  · exact length_of_one?_eq_some _h

end Lexeme
end BuildPipeline.Json
