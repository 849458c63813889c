import BuildPipeline.Toml.Scalar

/-!
TOML documents. A document is a row of statements: headers, which choose the table that the
following entries go to, and entries. `parse?` reads the statements of a text and builds up the root
table from them; a text that breaks a rule of the format, or a statement that does not fit those
before it, leaves no document.
-/

namespace BuildPipeline.Toml

open Text Text.Reader

/-- A statement. The path of a header or an entry does not hold its last key. -/
inductive Statement where
  /-- The header of a table. -/
  | table (path : List String) (key : String)
  /-- The header of a further element of an array. -/
  | element (path : List String) (key : String)
  | entry (path : List String) (key : String) (v : Value)

/-! ## Keys and values -/

/-- The least number of nested arrays and inline tables, or of parts of a key, that is too deep. -/
def depthLimit : Nat := 80

/-- The characters of a key without quotes. -/
def isBareKey (c : Char) : Bool :=
  c.isAlphanum || c == '-' || c == '_'

/-- One part of a key. -/
def simpleKey : Reader String :=
  String.ofList <$> (basicString <|> literalString <|> row1 isBareKey)

/-- The parts of a key with points between them; the last part is told apart. -/
def key : Reader (List String × String) := do
  let parts ← separated (char '.') (blanks *> simpleKey <* blanks)
  match parts.getLast? with
  | some last => if parts.length < depthLimit then return (parts.dropLast, last) else failure
  | none => failure

/-- A key with its value. -/
def entry (value : Reader Value) : Reader (List String × String × Value) := do
  let (path, key) ← key
  char '='
  blanks
  return (path, key, ← value)

/-- White space, line ends and comments between the elements of an array. -/
def gap : Reader Unit :=
  discard (many (discard (row1 isBlank) <|> newline <|> comment *> newline))

/-- An array with a comma between its elements, and optionally one behind the last. -/
def array (value : Reader Value) : Reader Value := do
  char '['
  let elements ← optionally
    (separated (char ',') (gap *> value <* gap) <* optionally (char ','))
  gap
  char ']'
  return .array false (elements.getD [])

/-- A table in braces with a comma between its entries, all on one line. -/
def inlineTable (value : Reader Value) : Reader Value := do
  char '\x7b'
  let entries ← optionally (separated (char ',') (entry value <* blanks))
  blanks
  char '\x7d'
  let table? := (entries.getD []).foldlM
    (fun t (path, key, v) => Table.insert? path key v t) (Origin.inline, [])
  match table? with
  | some t => return Table.toValue t
  | none => failure

/-- A value in which others nest at most so deep. -/
def value : Nat → Reader Value
  | 0 => scalar
  | depth + 1 => scalar <|> array (value depth) <|> inlineTable (value depth)

/-! ## Statements -/

/-- The end of a statement's line. -/
def lineEnd : Reader Unit := do
  blanks
  discard (optionally comment)
  newline <|> atEnd

/-- A statement with the end of its line. -/
def statement : Reader Statement :=
  (do word "[["
      let (path, key) ← key
      word "]]"
      lineEnd
      return .element path key) <|>
  (do char '['
      let (path, key) ← key
      char ']'
      lineEnd
      return .table path key) <|>
  (do let (path, key, v) ← entry (value (depthLimit - 1))
      lineEnd
      return .entry path key v)

/-- A line: a statement, or nothing but white space and a comment. -/
def line : Reader (Option Statement) := do
  blanks
  some <$> statement <|> (do lineEnd; return none)

/-- The statements of a document, which a byte order mark may precede. -/
def statements : Reader (List Statement) := do
  discard (optionally (char '\ufeff'))
  let lines ← many line
  return lines.filterMap id

/-! ## Documents -/

/-- A document so far, with the path of the table that entries go to. -/
structure Draft where
  root : Table := (.defined, [])
  current : List String := []

namespace Draft

/-- The document after one more statement. -/
def add? (d : Draft) : Statement → Option Draft
  | .table path key => (Table.define? path key d.root).map fun root => ⟨root, path ++ [key]⟩
  | .element path key => (Table.extend? path key d.root).map fun root => ⟨root, path ++ [key]⟩
  | .entry path key v =>
    (Table.change? .header (Table.insert? path key v) d.current d.root).map
      fun root => { d with root }

end Draft

/-- The entries of the root table that some statements make. -/
def ofStatements? (ss : List Statement) : Option Entries :=
  (ss.foldlM Draft.add? {}).map fun d => d.root.2

/-- Reads a document. -/
def parse? (text : String) : Option Entries :=
  (statements.run? text).bind ofStatements?

end BuildPipeline.Toml
