/-!
Reading a text from its front. A reader takes a value from the front of a text and leaves the rest,
or refuses. A choice tries its second side only where the first one refused, and tries it on the
same text. `many` goes on as long as it finds items that take at least one character, so it ends on
every text.
-/

namespace BuildPipeline.Text

/-- A reader of values. -/
abbrev Reader (α : Type) : Type :=
  StateT (List Char) Option α

namespace Reader

variable {α β : Type}

/-- One character of a class. -/
def one (p : Char → Bool) : Reader Char := fun
  | c :: rest => if p c then some (c, rest) else none
  | [] => none

/-- One character that stands for something. -/
def oneOf (meaning : Char → Option α) : Reader α := fun
  | c :: rest => (meaning c).map fun a => (a, rest)
  | [] => none

/-- A given character. -/
def char (c : Char) : Reader Unit :=
  discard (one (· == c))

/-- A given word. -/
def word (w : String) : Reader Unit :=
  w.toList.forM char

/-- As many characters of a class as there are. -/
def row (p : Char → Bool) : Reader (List Char) := fun cs =>
  some (cs.takeWhile p, cs.dropWhile p)

/-- As many characters of a class as there are, and at least one. -/
def row1 (p : Char → Bool) : Reader (List Char) := do
  let cs ← row p
  if cs.isEmpty then failure else return cs

/-- The end of the text. -/
def atEnd : Reader Unit := fun cs =>
  if cs.isEmpty then some ((), cs) else none

/-- A value if it is there. -/
def optionally (r : Reader α) : Reader (Option α) :=
  some <$> r <|> pure none

/-- The items at the front of a text, and what follows them. -/
def items (item : Reader α) (cs : List Char) : List α × List Char :=
  match item cs with
  | none => ([], cs)
  | some (a, rest) =>
    if rest.length < cs.length then
      let (as, after) := items item rest
      (a :: as, after)
    else ([], cs)
termination_by cs.length

/-- As many items as there are. -/
def many (item : Reader α) : Reader (List α) := fun cs =>
  some (items item cs)

/-- Items with a mark between them, at least one. -/
def separated (mark : Reader β) (item : Reader α) : Reader (List α) := do
  let first ← item
  return first :: (← many (do let _ ← mark; item))

/-- Reads a text to its end. -/
def run? (r : Reader α) (text : String) : Option α :=
  ((r <* atEnd) text.toList).map (·.1)

end Reader
end BuildPipeline.Text
