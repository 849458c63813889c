import BuildPipeline.Text.Decimal

/-!
JSON as this system writes it: without white space, members in the order given, numbers in
decimal. In strings only the quote, the backslash and the control characters are escaped, the
latter by the short form where there is one.
-/

namespace BuildPipeline

/-- A JSON value to be written; its numbers are the natural ones. -/
inductive Json where
  | null
  | bool (b : Bool)
  | number (n : Nat)
  | text (s : String)
  | array (elements : List Json)
  | object (members : List (String × Json))
  deriving Repr

namespace Json

/-- The hexadecimal digit of a number below 16, in lower case. -/
def hexDigit (n : Nat) : Char :=
  if n < 10 then Char.ofNat (48 + n) else Char.ofNat (87 + n)

/-- A character as it stands inside a string. -/
def escape (c : Char) : List Char :=
  if c = '"' then ['\\', '"']
  else if c = '\\' then ['\\', '\\']
  else if c = '\x08' then ['\\', 'b']
  else if c = '\x0c' then ['\\', 'f']
  else if c = '\n' then ['\\', 'n']
  else if c = '\x0d' then ['\\', 'r']
  else if c = '\t' then ['\\', 't']
  else if c.toNat < 32 then
    ['\\', 'u', '0', '0', hexDigit (c.toNat / 16), hexDigit (c.toNat % 16)]
  else [c]

/-- A string between quotes. -/
def quoted (s : String) : List Char :=
  '"' :: (s.toList.flatMap escape ++ ['"'])

mutual

/-- The characters of a value. -/
def chars : Json → List Char
  | null => ['n', 'u', 'l', 'l']
  | bool true => ['t', 'r', 'u', 'e']
  | bool false => ['f', 'a', 'l', 's', 'e']
  | number n => Text.Decimal.write n
  | text s => quoted s
  | array [] => ['[', ']']
  | array (x :: xs) => '[' :: (chars x ++ elementChars xs)
  | object [] => ['\x7b', '\x7d']
  | object ((name, x) :: ms) => '\x7b' :: (quoted name ++ ':' :: (chars x ++ memberChars ms))

/-- The elements after the first and the end of the array. -/
def elementChars : List Json → List Char
  | [] => [']']
  | x :: xs => ',' :: (chars x ++ elementChars xs)

/-- The members after the first and the end of the object. -/
def memberChars : List (String × Json) → List Char
  | [] => ['\x7d']
  | (name, x) :: ms => ',' :: (quoted name ++ ':' :: (chars x ++ memberChars ms))

end

/-- The text of a value. -/
def render (j : Json) : String :=
  String.ofList j.chars

end Json
end BuildPipeline
