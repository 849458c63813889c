import BuildPipeline.Binary64
import BuildPipeline.Text.Decimal
import BuildPipeline.Text.Reader
import BuildPipeline.Time.Date
import BuildPipeline.Toml.Value

/-!
The values of TOML that hold no others: strings in their four forms, numbers, truth values, dates
and times. Integers have 64 bits.
-/

namespace BuildPipeline.Toml

open Text Text.Reader

/-! ## Blanks, comments and line ends -/

/-- White space inside a line. -/
def isBlank (c : Char) : Bool :=
  c == ' ' || c == '\t'

/-- The characters that comments and strings may hold as they are: all but control characters, of
which only the tab is allowed. -/
def isPlain (c : Char) : Bool :=
  c == '\t' || (0x20 ≤ c.toNat && c.toNat != 0x7F)

/-- White space inside a line, if there is any. -/
def blanks : Reader Unit :=
  discard (row isBlank)

/-- The end of a line. -/
def newline : Reader Unit :=
  char '\n' <|> word "\r\n"

/-- A comment, without the end of its line. -/
def comment : Reader Unit := do
  char '#'
  discard (row isPlain)

/-! ## Strings -/

/-- The character that a letter stands for behind a backslash. -/
def shortEscape? (c : Char) : Option Char :=
  match c with
  | 'b' => some '\x08'
  | 't' => some '\t'
  | 'n' => some '\n'
  | 'f' => some '\x0c'
  | 'r' => some '\r'
  | '"' => some '"'
  | '\\' => some '\\'
  | _ => none

/-- The value of a digit, for bases up to 16. -/
def digit? (base : Nat) (c : Char) : Option Nat :=
  let value? :=
    if c.isDigit then some (c.toNat - '0'.toNat)
    else if 'a' ≤ c ∧ c ≤ 'f' then some (c.toNat - 'a'.toNat + 10)
    else if 'A' ≤ c ∧ c ≤ 'F' then some (c.toNat - 'A'.toNat + 10)
    else none
  value?.filter (· < base)

/-- The number that digits write in a base. -/
def valueIn (base : Nat) (ds : List Nat) : Nat :=
  ds.foldl (fun n d => base * n + d) 0

/-- A character by the number of its code point, in so many hexadecimal digits. -/
def codePoint (width : Nat) : Reader Char := do
  let ds ← (List.replicate width ()).mapM fun _ => oneOf (digit? 16)
  let n := valueIn 16 ds
  if n.isValidChar then return Char.ofNat n else failure

/-- An escape. -/
def escape : Reader Char := do
  char '\\'
  oneOf shortEscape? <|> (do char 'u'; codePoint 4) <|> (do char 'U'; codePoint 8)

/-- A line end inside a string, which always counts as one line feed. -/
def lineFeed : Reader (List Char) := do
  newline
  return ['\n']

/-- A backslash at the end of a line: it and all white space up to the next line with anything else
leave nothing. -/
def continuation : Reader (List Char) := do
  char '\\'
  blanks
  newline
  discard (many (discard (row1 isBlank) <|> newline))
  return []

/-- One or two quotes inside a string that three quotes end. -/
def innerQuotes (quote : Char) : Reader (List Char) := do
  let quotes ← row1 (· == quote)
  if quotes.length < 3 then return quotes else failure

/-- The three quotes that end a string, and up to two more in front of them that belong to it. -/
def closingQuotes (quote : Char) : Reader (List Char) := do
  let quotes ← row1 (· == quote)
  if 3 ≤ quotes.length ∧ quotes.length ≤ 5 then return quotes.drop 3 else failure

/-- A text put together from its pieces. -/
def joined (pieces : Reader (List (List Char))) : Reader (List Char) :=
  List.flatten <$> pieces

/-- Characters that stand for themselves in a string with some quote. -/
def plainRow (quote : Char) : Reader (List Char) :=
  row1 fun c => isPlain c && c != quote

/-- Characters that stand for themselves where a backslash begins an escape. -/
def unescapedRow : Reader (List Char) :=
  row1 fun c => isPlain c && c != '"' && c != '\\'

/-- A string on one line in which a backslash begins an escape. -/
def basicString : Reader (List Char) := do
  char '"'
  let cs ← joined (many (unescapedRow <|> List.singleton <$> escape))
  char '"'
  return cs

/-- A string on one line in which every character stands for itself. -/
def literalString : Reader (List Char) := do
  char '\''
  let cs ← joined (many (plainRow '\''))
  char '\''
  return cs

/-- A string over several lines. A line end right behind the opening quotes does not count. -/
def longString (quote : Char) (piece : Reader (List Char)) : Reader (List Char) := do
  word (String.ofList [quote, quote, quote])
  discard (optionally newline)
  let cs ← joined (many (piece <|> lineFeed <|> innerQuotes quote))
  return cs ++ (← closingQuotes quote)

/-- A string. -/
def string : Reader String :=
  String.ofList <$>
    (longString '"' (unescapedRow <|> continuation <|> List.singleton <$> escape) <|>
      basicString <|> longString '\'' (plainRow '\'') <|> literalString)

/-! ## Numbers -/

/-- Digits, with an underscore allowed between two of them. -/
def digits (base : Nat) : Reader (List Nat) :=
  separated (optionally (char '_')) (oneOf (digit? base))

/-- Whether a minus sign stands in front; a plus sign changes nothing. -/
def sign : Reader Bool :=
  (do char '-'; return true) <|> (do char '+'; return false) <|> pure false

/-- The integers of 64 bits. -/
def inRange (n : Int) : Bool :=
  -9223372036854775808 ≤ n && n ≤ 9223372036854775807

/-- An integer if it has 64 bits. -/
def integer (n : Int) : Reader Value :=
  if inRange n then return .integer n else failure

/-- An integer in the base that a mark names, without a sign. -/
def based (mark : String) (base : Nat) : Reader Value := do
  word mark
  integer (valueIn base (← digits base))

/-- The part of a number before its point: a zero, or digits that begin with none. -/
def whole : Reader (List Nat) :=
  (do char '0'; return [0]) <|> digits 10

/-- The part of a number behind its point. -/
def fraction : Reader (List Nat) := do
  char '.'
  digits 10

/-- The power of ten that scales a number. -/
def exponent : Reader Int := do
  discard (one fun c => c == 'e' || c == 'E')
  let negative ← sign
  let n : Int := Text.Decimal.value (← digits 10)
  return if negative then -n else n

/-- A decimal number: an integer unless it has a fraction or an exponent. A positive number beyond
the range of 64-bit floating point is refused. -/
def decimal : Reader Value := do
  let negative ← sign
  let ds ← whole
  let places ← optionally fraction
  let scale ← optionally exponent
  let n : Int := Text.Decimal.value ds
  if places.isNone && scale.isNone then integer (if negative then -n else n)
  else
    let places := places.getD []
    let size := Text.Decimal.value (ds ++ places)
    if negative || Binary64.decimalIsFinite size (scale.getD 0 - places.length) then
      return .other
    else failure

/-- The numbers that have names. -/
def named : Reader Value := do
  discard sign
  word "inf" <|> word "nan"
  return .other

/-! ## Dates and times -/

/-- A number of so many digits. -/
def padded (width : Nat) : Reader Nat := do
  let ds ← (List.replicate width ()).mapM fun _ => oneOf (digit? 10)
  return Text.Decimal.value ds

/-- A number of two digits with a limit. -/
def upTo (limit : Nat) : Reader Unit := do
  if (← padded 2) ≤ limit then return () else failure

/-- A date. -/
def date : Reader Unit := do
  let year ← padded 4
  char '-'
  let month ← padded 2
  char '-'
  let day ← padded 2
  if Time.isDate year month day then return () else failure

/-- A time of day, which may be a leap second. -/
def timeOfDay : Reader Unit := do
  upTo 23
  char ':'
  upTo 59
  char ':'
  upTo 60
  discard (optionally (do char '.'; row1 Char.isDigit))

/-- The offset of a zone. -/
def offset : Reader Unit :=
  discard (one fun c => c == 'Z' || c == 'z') <|> do
    discard (one fun c => c == '+' || c == '-')
    upTo 23
    char ':'
    upTo 59

/-- A date, a time of day, or both. -/
def dateOrTime : Reader Value := do
  (do date
      discard (optionally (do
        discard (one fun c => c == 'T' || c == 't' || c == ' ')
        timeOfDay
        discard (optionally offset)))) <|> timeOfDay
  return .other

/-! ## All of them -/

/-- A truth value. -/
def truth : Reader Value := do
  word "true" <|> word "false"
  return .other

/-- A value that holds no others. -/
def scalar : Reader Value :=
  Value.text <$> string <|> dateOrTime <|> based "0x" 16 <|> based "0o" 8 <|> based "0b" 2 <|>
    decimal <|> named <|> truth

end BuildPipeline.Toml
