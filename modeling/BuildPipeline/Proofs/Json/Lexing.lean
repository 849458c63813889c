import BuildPipeline.Proofs.Json.Quoted
import BuildPipeline.Proofs.Text.Digits

/-!
A JSON text is a row of tokens with white space around them. Where the tokens of a value are spaced
out in any way (`Json.Spaced`), lexing gives these tokens back, one lexeme for each
(`Lexeme.ofBytes_of_spaced`). Only a number does not say itself where it ends; in the tokens of a
value no number follows another one, and nothing else begins like the rest of a number.
-/

namespace BuildPipeline.Json

open Text (bytes)
open Text.Decimal (digits digitChar)

/-- A part of a JSON text that white space may not divide. -/
inductive Token where
  | arrayOpen
  | arrayClose
  | objectOpen
  | objectClose
  | comma
  | colon
  | null
  | bool (b : Bool)
  | number (n : Nat)
  | text (s : String)
  deriving DecidableEq, Repr

namespace Token

/-- The characters of a token. -/
def chars : Token → List Char
  | arrayOpen => ['[']
  | arrayClose => [']']
  | objectOpen => ['\x7b']
  | objectClose => ['\x7d']
  | comma => [',']
  | colon => [':']
  | null => ['n', 'u', 'l', 'l']
  | bool true => ['t', 'r', 'u', 'e']
  | bool false => ['f', 'a', 'l', 's', 'e']
  | number n => Text.Decimal.write n
  | text s => quoted s

/-- What a token is read as. -/
def lexeme : Token → Lexeme
  | arrayOpen => .arrayOpen
  | arrayClose => .arrayClose
  | objectOpen => .objectOpen
  | objectClose => .objectClose
  | comma => .comma
  | colon => .colon
  | null => .null
  | bool b => .bool b
  | number n => .number (.ofWhole (digits n))
  | text s => .text (some s)

/-- Whether a token is a number. -/
def isNumber : Token → Bool
  | number _ => true
  | _ => false

end Token

mutual

/-- The tokens of a value. -/
def tokens : Json → List Token
  | null => [.null]
  | bool b => [.bool b]
  | number n => [.number n]
  | text s => [.text s]
  | array [] => [.arrayOpen, .arrayClose]
  | array (x :: xs) => .arrayOpen :: (tokens x ++ elementTokens xs)
  | object [] => [.objectOpen, .objectClose]
  | object ((name, x) :: ms) =>
    .objectOpen :: .text name :: .colon :: (tokens x ++ memberTokens ms)

/-- The tokens of the elements after the first and of the end of the array. -/
def elementTokens : List Json → List Token
  | [] => [.arrayClose]
  | x :: xs => .comma :: (tokens x ++ elementTokens xs)

/-- The tokens of the members after the first and of the end of the object. -/
def memberTokens : List (String × Json) → List Token
  | [] => [.objectClose]
  | (name, x) :: ms => .comma :: .text name :: .colon :: (tokens x ++ memberTokens ms)

end

/-- The white space of JSON. -/
def isSpace (c : Char) : Bool :=
  c == ' ' || c == '\t' || c == '\n' || c == '\x0d'

/-- Characters that consist of some tokens with any white space before, between and behind them. -/
inductive Spaced : List Token → List Char → Prop where
  | done {space : List Char} : (∀ c ∈ space, isSpace c) → Spaced [] space
  | token {space cs : List Char} {ts : List Token} (t : Token) :
      (∀ c ∈ space, isSpace c) → Spaced ts cs → Spaced (t :: ts) (space ++ (t.chars ++ cs))

/-- A text of the value, with any white space between its tokens. -/
def IsText (j : Json) (text : String) : Prop :=
  Spaced j.tokens text.toList

/-! ## The text that is written -/

mutual

theorem chars_eq (j : Json) : j.chars = j.tokens.flatMap Token.chars := by
  match j with
  | null | bool true | bool false | number n | text s | array [] | object [] =>
      simp [chars, tokens, Token.chars]
  | array (x :: xs) =>
      simp [chars, tokens, Token.chars, chars_eq x, elementChars_eq xs]
  | object ((name, x) :: ms) =>
      simp [chars, tokens, Token.chars, chars_eq x, memberChars_eq ms]

theorem elementChars_eq (xs : List Json) :
    elementChars xs = (elementTokens xs).flatMap Token.chars := by
  match xs with
  | [] => rfl
  | x :: xs => simp [elementChars, elementTokens, Token.chars, chars_eq x, elementChars_eq xs]

theorem memberChars_eq (ms : List (String × Json)) :
    memberChars ms = (memberTokens ms).flatMap Token.chars := by
  match ms with
  | [] => rfl
  | (name, x) :: ms =>
      simp [memberChars, memberTokens, Token.chars, chars_eq x, memberChars_eq ms]

end

/-- Tokens, each behind some white space, with white space at the end. -/
theorem spaced_pieces {pieces : List (List Char × Token)} {space : List Char}
    (blank : ∀ piece ∈ pieces, ∀ c ∈ piece.1, isSpace c) (last : ∀ c ∈ space, isSpace c) :
    Spaced (pieces.map Prod.snd)
      (pieces.flatMap (fun (before, t) => before ++ t.chars) ++ space) := by
  induction pieces with
  | nil => exact .done last
  | cons piece pieces ih =>
      rw [List.flatMap_cons, List.append_assoc, List.append_assoc]
      exact .token piece.2 (blank piece List.mem_cons_self)
        (ih fun other mem => blank other (List.mem_cons_of_mem _ mem))

/-- What is written has no white space between its tokens. -/
theorem isText_render (j : Json) : j.IsText j.render := by
  have blank : ∀ piece ∈ j.tokens.map (fun t => (([] : List Char), t)),
      ∀ c ∈ piece.1, isSpace c := by simp
  have last : ∀ c ∈ ([] : List Char), isSpace c := nofun
  have spaced := spaced_pieces blank last
  rw [IsText, render, String.toList_ofList, chars_eq]
  simpa [Function.comp_def, List.flatMap_map] using spaced

/-! ## Numbers are told apart -/

/-- The tokens do not go on with a number. -/
def Ended (ts : List Token) : Prop :=
  ∀ t ∈ ts.head?, t.isNumber = false

/-- No number is followed by a number. -/
def Loose : List Token → Prop
  | [] => True
  | t :: ts => (t.isNumber → Ended ts) ∧ Loose ts

theorem ended_cons {t : Token} (other : t.isNumber = false) (ts : List Token) :
    Ended (t :: ts) := by
  intro u mem
  rw [List.head?_cons, Option.mem_some_iff] at mem
  exact mem ▸ other

theorem Loose.cons {t : Token} {ts : List Token} (loose : Loose ts) (other : t.isNumber = false) :
    Loose (t :: ts) :=
  ⟨fun number => by simp [other] at number, loose⟩

theorem ended_elementTokens (xs : List Json) (rest : List Token) :
    Ended (elementTokens xs ++ rest) := by
  cases xs <;> exact ended_cons rfl _

theorem ended_memberTokens (ms : List (String × Json)) (rest : List Token) :
    Ended (memberTokens ms ++ rest) := by
  rcases ms with _ | ⟨⟨name, x⟩, ms⟩ <;> exact ended_cons rfl _

mutual

theorem loose_tokens (j : Json) {rest : List Token} (ended : Ended rest) (loose : Loose rest) :
    Loose (j.tokens ++ rest) := by
  match j with
  | number n => exact ⟨fun _ => ended, loose⟩
  | null | bool b | text s => exact loose.cons rfl
  | array [] | object [] => exact (loose.cons rfl).cons rfl
  | array (x :: xs) =>
      rw [tokens, List.cons_append, List.append_assoc]
      exact (loose_tokens x (ended_elementTokens xs rest) (loose_elementTokens xs loose)).cons rfl
  | object ((name, x) :: ms) =>
      rw [tokens, List.cons_append, List.cons_append, List.cons_append, List.append_assoc]
      exact (((loose_tokens x (ended_memberTokens ms rest)
        (loose_memberTokens ms loose)).cons rfl).cons rfl).cons rfl

theorem loose_elementTokens (xs : List Json) {rest : List Token} (loose : Loose rest) :
    Loose (elementTokens xs ++ rest) := by
  match xs with
  | [] => exact loose.cons rfl
  | x :: xs =>
      rw [elementTokens, List.cons_append, List.append_assoc]
      exact (loose_tokens x (ended_elementTokens xs rest) (loose_elementTokens xs loose)).cons rfl

theorem loose_memberTokens (ms : List (String × Json)) {rest : List Token} (loose : Loose rest) :
    Loose (memberTokens ms ++ rest) := by
  match ms with
  | [] => exact loose.cons rfl
  | (name, x) :: ms =>
      rw [memberTokens, List.cons_append, List.cons_append, List.cons_append, List.append_assoc]
      exact (((loose_tokens x (ended_memberTokens ms rest)
        (loose_memberTokens ms loose)).cons rfl).cons rfl).cons rfl

end

theorem loose_all_tokens (j : Json) : Loose j.tokens := by
  have loose : Loose (j.tokens ++ []) := loose_tokens j nofun trivial
  rwa [List.append_nil] at loose

namespace Lexeme

/-- The bytes do not go on with a part of a number. -/
def Blunt (bs : List UInt8) : Prop :=
  ∀ b ∈ bs.head?, digit? b = none ∧ b ≠ 0x2E ∧ opensExponent b = false

/-! ## One token -/

theorem bytes_digits {ds : List Nat} (small : ∀ d ∈ ds, d < 10) :
    bytes (ds.map digitChar) = ds.map fun d => byte (digitChar d) := by
  induction ds with
  | nil => rfl
  | cons d ds ih =>
      have one : ∀ d < 10, String.utf8EncodeChar (digitChar d) = [byte (digitChar d)] := by decide
      have others := ih fun d mem => small d (List.mem_cons_of_mem _ mem)
      rw [List.map_cons, Text.bytes_cons, one d (small d List.mem_cons_self), others]
      rfl

theorem digit?_byte {d : Nat} (small : d < 10) : digit? (byte (digitChar d)) = some d := by
  have all : ∀ d < 10, digit? (byte (digitChar d)) = some d := by decide
  exact all d small

theorem spanDigits_map {ds : List Nat} {rest : List UInt8} (small : ∀ d ∈ ds, d < 10)
    (blunt : Blunt rest) :
    spanDigits (ds.map (fun d => byte (digitChar d)) ++ rest) = (ds, rest) := by
  induction ds with
  | nil =>
      cases rest with
      | nil => rfl
      | cons b rest => simp [spanDigits, (blunt b rfl).1]
  | cons d ds ih =>
      have first := digit?_byte (small d List.mem_cons_self)
      have others := ih fun d mem => small d (List.mem_cons_of_mem _ mem)
      rw [List.map_cons, List.cons_append, spanDigits, first, others]

theorem whole?_digits (n : Nat) {rest : List UInt8} (blunt : Blunt rest) :
    whole? (bytes (Text.Decimal.write n) ++ rest) = some (digits n, rest) := by
  have small : ∀ d ∈ digits n, d < 10 := fun d mem => Text.Decimal.digit_lt_of_mem_digits mem
  have found : digits? (bytes (Text.Decimal.write n) ++ rest) = some (digits n, rest) := by
    rw [digits?, Text.Decimal.write, bytes_digits small, spanDigits_map small blunt]
    cases front : digits n with
    | nil => exact absurd front (Text.Decimal.digits_ne_nil n)
    | cons d ds => rfl
  rw [whole?, found]
  split
  · rename_i zero
    cases Text.Decimal.eq_nil_of_leading_zero (Prod.mk.inj (Option.some.inj zero)).1
  · rfl

theorem fraction?_blunt {rest : List UInt8} (blunt : Blunt rest) :
    fraction? rest = some (none, rest) := by
  unfold fraction?
  split
  · exact absurd rfl (blunt 0x2E rfl).2.1
  · rfl

theorem exponent?_blunt {rest : List UInt8} (blunt : Blunt rest) :
    exponent? rest = some (none, rest) := by
  cases rest with
  | nil => rfl
  | cons b rest => simp [exponent?, (blunt b rfl).2.2]

/-- What begins with a digit is read as a number without sign. -/
theorem one?_digit {d : Nat} (small : d < 10) (rest : List UInt8) :
    one? (byte (digitChar d) :: rest) =
        (number? (byte (digitChar d) :: rest)).map (fun (n, after) => (.number n, after)) ∧
      minus (byte (digitChar d) :: rest) = (false, byte (digitChar d) :: rest) ∧
      isSpace (byte (digitChar d)) = false := by
  match d with
  | 0 | 1 | 2 | 3 | 4 | 5 | 6 | 7 | 8 | 9 => exact ⟨rfl, rfl, rfl⟩
  | d + 10 => omega

theorem one?_number (n : Nat) {rest : List UInt8} (blunt : Blunt rest) :
    one? (bytes (Text.Decimal.write n) ++ rest) = some (.number (.ofWhole (digits n)), rest) := by
  have small : ∀ d ∈ digits n, d < 10 := fun d mem => Text.Decimal.digit_lt_of_mem_digits mem
  obtain ⟨d, ds, front⟩ := List.exists_cons_of_ne_nil (Text.Decimal.digits_ne_nil n)
  have shape : bytes (Text.Decimal.write n) ++ rest =
      byte (digitChar d) :: (ds.map (fun d => byte (digitChar d)) ++ rest) := by
    rw [Text.Decimal.write, bytes_digits small, front]
    rfl
  have first := one?_digit (small d (front ▸ List.mem_cons_self))
    (ds.map (fun d => byte (digitChar d)) ++ rest)
  have whole := whole?_digits n blunt
  rw [shape] at whole ⊢
  rw [first.1]
  simp only [number?, first.2.1, whole, fraction?_blunt blunt, exponent?_blunt blunt,
    Option.bind_some, Option.map_some]
  rfl

/-- A token is read as its lexeme, whatever follows it; behind a number nothing may follow that is
a part of one. -/
theorem one?_token (t : Token) {rest : List UInt8} (blunt : t.isNumber → Blunt rest) :
    one? (bytes t.chars ++ rest) = some (t.lexeme, rest) := by
  match t with
  | .number n => exact one?_number n (blunt rfl)
  | .text s => exact one?_quoted s rest
  | .arrayOpen | .arrayClose | .objectOpen | .objectClose | .comma | .colon | .null | .bool true
  | .bool false => rfl

theorem blunt_cons {b : UInt8} (blunt : digit? b = none ∧ b ≠ 0x2E ∧ opensExponent b = false)
    (bs : List UInt8) : Blunt (b :: bs) := by
  intro c mem
  rw [List.head?_cons, Option.mem_some_iff] at mem
  exact mem ▸ blunt

/-- A token begins with a byte that is no white space, and that is no part of a number unless the
token is one. -/
theorem bytes_token (t : Token) : ∃ b bs, bytes t.chars = b :: bs ∧ isSpace b = false ∧
    (t.isNumber = false → ∀ rest, Blunt (b :: rest)) := by
  match t with
  | .number n =>
      have small : ∀ d ∈ digits n, d < 10 := fun d mem => Text.Decimal.digit_lt_of_mem_digits mem
      obtain ⟨d, ds, front⟩ := List.exists_cons_of_ne_nil (Text.Decimal.digits_ne_nil n)
      refine ⟨byte (digitChar d), ds.map fun d => byte (digitChar d), ?_,
        (one?_digit (small d (front ▸ List.mem_cons_self)) []).2.2, nofun⟩
      rw [Token.chars, Text.Decimal.write, bytes_digits small, front]
      rfl
  | .text s => exact ⟨_, _, rfl, rfl, fun _ => blunt_cons (by decide)⟩
  | .arrayOpen | .arrayClose | .objectOpen | .objectClose | .comma | .colon | .null | .bool true
  | .bool false => exact ⟨_, _, rfl, rfl, fun _ => blunt_cons (by decide)⟩

/-! ## Rows of tokens -/

/-- White space is one byte, which is no part of a number. -/
theorem bytes_space {c : Char} (space : Json.isSpace c) : ∃ b, String.utf8EncodeChar c = [b] ∧
    isSpace b = true ∧ ∀ rest, Blunt (b :: rest) := by
  simp only [Json.isSpace, Bool.or_eq_true, beq_iff_eq] at space
  rcases space with ((rfl | rfl) | rfl) | rfl <;>
    exact ⟨_, rfl, rfl, blunt_cons (by decide)⟩

theorem ofBytes_space {space : List Char} (blank : ∀ c ∈ space, Json.isSpace c)
    (rest : List UInt8) : ofBytes (bytes space ++ rest) = ofBytes rest := by
  induction space with
  | nil => rfl
  | cons c cs ih =>
      obtain ⟨b, one, space, -⟩ := bytes_space (blank c List.mem_cons_self)
      rw [Text.bytes_cons, one, List.singleton_append, List.cons_append, ofBytes, if_pos space]
      exact ih fun c mem => blank c (List.mem_cons_of_mem _ mem)

theorem ofBytes_token (t : Token) {rest : List UInt8} (blunt : t.isNumber → Blunt rest) :
    ofBytes (bytes t.chars ++ rest) = t.lexeme :: ofBytes rest := by
  obtain ⟨b, bs, shape, solid, -⟩ := bytes_token t
  have one := one?_token t blunt
  rw [shape, List.cons_append] at one ⊢
  rw [ofBytes, if_neg (by simp [solid])]
  split
  · rename_i failed
    rw [one] at failed
    cases failed
  · rename_i lexeme after found
    rw [one] at found
    cases found
    rfl

theorem blunt_space_append {space : List Char} {rest : List UInt8}
    (blank : ∀ c ∈ space, Json.isSpace c) (blunt : Blunt rest) : Blunt (bytes space ++ rest) := by
  cases space with
  | nil => exact blunt
  | cons c cs =>
      obtain ⟨b, one, -, blunt⟩ := bytes_space (blank c List.mem_cons_self)
      rw [Text.bytes_cons, one]
      exact blunt _

theorem blunt_of_spaced {ts : List Token} {cs : List Char} (spaced : Spaced ts cs)
    (ended : Ended ts) : Blunt (bytes cs) := by
  cases spaced with
  | done blank =>
      have blunt : Blunt (bytes _ ++ []) := blunt_space_append blank nofun
      rwa [List.append_nil] at blunt
  | token t blank spaced =>
      obtain ⟨b, bs, shape, -, blunt⟩ := bytes_token t
      rw [Text.bytes_append, Text.bytes_append, shape]
      exact blunt_space_append blank (blunt (ended t rfl) _)

/-- Spaced tokens are read as their lexemes. -/
theorem ofBytes_of_spaced {ts : List Token} {cs : List Char} (spaced : Spaced ts cs)
    (loose : Loose ts) : ofBytes (bytes cs) = ts.map Token.lexeme := by
  induction spaced with
  | done blank =>
      rw [← List.append_nil (bytes _), ofBytes_space blank, ofBytes]
      rfl
  | token t blank spaced ih =>
      rw [Text.bytes_append, Text.bytes_append, ofBytes_space blank,
        ofBytes_token t fun number => blunt_of_spaced spaced (loose.1 number), ih loose.2]
      rfl

/-- A text of a value is read as the lexemes of its tokens. -/
theorem ofBytes_of_isText {j : Json} {text : String} (isText : j.IsText text) :
    ofBytes text.toUTF8.data.toList = j.tokens.map Token.lexeme := by
  rw [Text.toList_toUTF8]
  exact ofBytes_of_spaced isText (loose_all_tokens j)

end Lexeme
end BuildPipeline.Json
