import BuildPipeline.Json.Lexeme

/-!
A JSON text as a tree. A text that breaks off is a tree too: it holds all that was there before the
first fault in the order of the text, and a broken leaf in the place of the fault. So whoever walks
the tree in that order meets what is wrong with the text, and what is wrong with the values in it,
in the order in which a reader of the text would.

The tree is built by a fold over the lexemes that keeps the containers which are still open.
-/

namespace BuildPipeline.Json

/-- A JSON value as it was read. The name of a member, like the text of a string, is missing where
the string stands for no text. -/
inductive Draft where
  | null
  | bool (b : Bool)
  | number (n : Numeral)
  | text (s : Option String)
  | array (elements : List Draft)
  | object (members : List (Option String × Draft))
  | broken
  deriving Repr

namespace Draft

/-! ## Soundness of the whole tree -/

mutual

/-- Whether the text went on to the end of this value. -/
def isWhole : Draft → Bool
  | broken => false
  | array elements => allWhole elements
  | object members => membersWhole members
  | null | bool _ | number _ | text _ => true

/-- Whether every element is whole. -/
def allWhole : List Draft → Bool
  | [] => true
  | x :: xs => isWhole x && allWhole xs

/-- Whether every member is whole. -/
def membersWhole : List (Option String × Draft) → Bool
  | [] => true
  | (_, x) :: ms => isWhole x && membersWhole ms

end

mutual

/-- Whether the value is whole, stands for text in all its strings, keeps its numbers in range and
nests at most `room` levels. -/
def isSound (room : Nat) : Draft → Bool
  | broken => false
  | text s => s.isSome
  | number n => n.inRange
  | null | bool _ => true
  | array elements =>
    match room with
    | 0 => false
    | room + 1 => allSound room elements
  | object members =>
    match room with
    | 0 => false
    | room + 1 => membersSound room members

/-- Whether every element is sound. -/
def allSound (room : Nat) : List Draft → Bool
  | [] => true
  | x :: xs => isSound room x && allSound room xs

/-- Whether every member is sound and its name is a text. -/
def membersSound (room : Nat) : List (Option String × Draft) → Bool
  | [] => true
  | (name, x) :: ms => name.isSome && isSound room x && membersSound room ms

end

/-! ## Reading -/

/-- A container that is still open: an array or object with what it holds so far, last first, or a
member that waits for its value. -/
inductive Frame where
  | elements (before : List Draft)
  | members (before : List (Option String × Draft))
  | member (before : List (Option String × Draft)) (name : Option String)
  deriving Repr

/-- What the text has to go on with. -/
inductive Want where
  /-- a value -/
  | value
  /-- a value, or the end of the array that was just opened -/
  | element
  /-- a name, or the end of the object that was just opened -/
  | entry
  /-- a name -/
  | name
  /-- the colon of a member -/
  | colon
  /-- a comma, or the end of the container -/
  | more
  deriving DecidableEq, Repr

/-- How far the reading of a text has come: inside it, with the innermost open container first;
behind a value; or past what could be read, with `trailing` set when only something behind the
value is wrong. -/
inductive Progress where
  | within (want : Want) (openFrames : List Frame)
  | complete (value : Draft)
  | stopped (value : Draft) (trailing : Bool)
  deriving Repr

/-- Hands a finished value to the innermost open container. -/
def receive (value : Draft) : List Frame → Progress
  | [] => .complete value
  | .elements before :: rest => .within .more (.elements (value :: before) :: rest)
  | .member before name :: rest => .within .more (.members ((name, value) :: before) :: rest)
  | .members before :: rest => .within .more (.members before :: rest)

/-- The tree of a text that breaks off where `value` stands: every open container ends there. -/
def abandon (value : Draft) : List Frame → Draft
  | [] => value
  | .elements before :: rest => abandon (.array (value :: before).reverse) rest
  | .member before name :: rest => abandon (.object ((name, value) :: before).reverse) rest
  | .members before :: rest => abandon (.object ((none, value) :: before).reverse) rest

/-- Goes on from the front of a value. -/
def stepValue (frames : List Frame) : Lexeme → Progress
  | .null => receive .null frames
  | .bool b => receive (.bool b) frames
  | .number n => receive (.number n) frames
  | .text s => receive (.text s) frames
  | .arrayOpen => .within .element (.elements [] :: frames)
  | .objectOpen => .within .entry (.members [] :: frames)
  | .arrayClose | .objectClose | .comma | .colon | .fault => .stopped (abandon .broken frames) false

/-- Goes on by one lexeme. -/
def step (progress : Progress) (lexeme : Lexeme) : Progress :=
  match progress with
  | .stopped value trailing => .stopped value trailing
  | .complete value => .stopped value true
  | .within want frames =>
    match want, frames, lexeme with
    | .value, frames, lexeme => stepValue frames lexeme
    | .element, .elements before :: rest, .arrayClose => receive (.array before.reverse) rest
    | .element, frames, lexeme => stepValue frames lexeme
    | .entry, .members before :: rest, .objectClose => receive (.object before.reverse) rest
    | .entry, .members before :: rest, .text name => .within .colon (.member before name :: rest)
    | .name, .members before :: rest, .text name => .within .colon (.member before name :: rest)
    | .colon, frames, .colon => .within .value frames
    | .more, .elements before :: rest, .comma => .within .value (.elements before :: rest)
    | .more, .elements before :: rest, .arrayClose => receive (.array before.reverse) rest
    | .more, .members before :: rest, .comma => .within .name (.members before :: rest)
    | .more, .members before :: rest, .objectClose => receive (.object before.reverse) rest
    | _, frames, _ => .stopped (abandon .broken frames) false

/-- The tree at the end of the text, and whether something follows the value in it. -/
def finish : Progress → Draft × Bool
  | .within _ frames => (abandon .broken frames, false)
  | .complete value => (value, false)
  | .stopped value trailing => (value, trailing)

/-- Reads a row of lexemes. -/
def ofLexemes (lexemes : List Lexeme) : Draft × Bool :=
  finish (lexemes.foldl step (.within .value []))

/-- Reads a text. -/
def ofBytes (bytes : List UInt8) : Draft × Bool :=
  ofLexemes (Lexeme.ofBytes bytes)

end Draft
end BuildPipeline.Json
