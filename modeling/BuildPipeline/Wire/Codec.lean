import BuildPipeline.Json.Draft
import BuildPipeline.Json.Value

/-!
How values are written as JSON and read back. A codec writes a value as a JSON value and reads one
from a JSON tree; it reports the first thing that is wrong in the order of the text.

A tree is read either straight from the text or out of a buffer. What is buffered has been read as
JSON of any shape before, so it is sound throughout; read straight, a part that nobody asks for has
only to be whole.
-/

namespace BuildPipeline.Wire

open Json (Draft)

/-- What is wrong with a text. A member that the record does not have, or a value of the wrong
shape, is no more than malformed. -/
inductive Fault where
  | malformed
  | missingField (name : String)
  | duplicateField (name : String)
  | unknownVariant (name : String) (expected : List String)
  deriving DecidableEq, Repr

/-- A name between the marks that set it off in a sentence. -/
def marked (name : String) : String :=
  "\x60" ++ name ++ "\x60"

/-- The sentence for the names that could have stood in a place. -/
def expectation : List String → String
  | [] => "there are no variants"
  | [name] => "expected " ++ marked name
  | [first, second] => "expected " ++ marked first ++ " or " ++ marked second
  | names => "expected one of " ++ ", ".intercalate (names.map marked)

/-- The sentence reported for a fault, where it has one. -/
def Fault.message? : Fault → Option String
  | .malformed => none
  | .missingField name => some ("missing field " ++ marked name)
  | .duplicateField name => some ("duplicate field " ++ marked name)
  | .unknownVariant name expected =>
    some ("unknown variant " ++ marked name ++ ", " ++ expectation expected)

/-- Where a tree comes from. -/
inductive Source where
  | streamed
  | buffered
  deriving DecidableEq, Repr

/-- Reads a value from a tree that may nest `room` more levels. -/
abbrev Reader (α : Type) := Source → Nat → Draft → Except Fault α

/-- A way to write values of a type and to read them back. -/
structure Codec (α : Type) where
  read : Reader α
  write : α → Json

/-- The number of levels that a text may nest. -/
def maxDepth : Nat := 127

namespace Codec

variable {α β : Type}

/-- Reads a text that holds one value and nothing else. -/
def decode (codec : Codec α) (bytes : List UInt8) : Except Fault α := do
  let (draft, trailing) := Draft.ofBytes bytes
  let value ← codec.read .streamed maxDepth draft
  if trailing then throw .malformed
  return value

/-- The text of a value. -/
def encode (codec : Codec α) (value : α) : String :=
  (codec.write value).render

/-- The same texts for the values of another type. -/
def imap (codec : Codec α) (wrap : α → β) (unwrap : β → α) : Codec β where
  read source room draft := (codec.read source room draft).map wrap
  write value := codec.write (unwrap value)

/-- Texts as strings. -/
def text : Codec String where
  read
    | _, _, .text (some s) => .ok s
    | _, _, _ => .error .malformed
  write := .text

/-- Values that are written in a notation of their own, as a string. -/
def spelled (parse : String → Option α) (spell : α → String) : Codec α where
  read
    | _, _, .text (some s) => match parse s with
      | some value => .ok value
      | none => .error .malformed
    | _, _, _ => .error .malformed
  write value := .text (spell value)

/-- Natural numbers up to a greatest one. -/
def natural (max : Nat) : Codec Nat where
  read
    | _, _, .number (.natural n) => if n ≤ max then .ok n else .error .malformed
    | _, _, _ => .error .malformed
  write := .number

/-- Numbers of 64 bits. -/
def word64 : Codec Nat :=
  natural Text.Decimal.wordLimit

/-- Numbers of 16 bits. -/
def word16 : Codec UInt16 :=
  (natural (UInt16.size - 1)).imap Nat.toUInt16 UInt16.toNat

/-- A value that may be missing, which `null` says. -/
def optional (codec : Codec α) : Codec (Option α) where
  read
    | _, _, .null => .ok none
    | source, room, draft => (codec.read source room draft).map some
  write
    | none => .null
    | some value => codec.write value

/-- Lists, as arrays. -/
def list (codec : Codec α) : Codec (List α) where
  read
    | source, room + 1, .array elements => elements.mapM (codec.read source room)
    | _, _, _ => .error .malformed
  write values := .array (values.map codec.write)

/-- The variant of a name among those that have one. -/
def lookup (all : List α) (name : α → String) (key : String) : Except Fault α :=
  match all.find? (name · == key) with
  | some value => .ok value
  | none => .error (.unknownVariant key (all.map name))

/-- The variants of an enumeration, as strings. An object whose only member has the name of a
variant stands for it too; the value is `null`, and in a buffer it may also be the empty object. -/
def enumeration (all : List α) (name : α → String) : Codec α where
  read
    | _, _, .text (some key) => lookup all name key
    | .streamed, _ + 1, .object ((some key, content) :: rest) => do
      let value ← lookup all name key
      match content, rest with
      | .null, [] => return value
      | _, _ => throw .malformed
    | .buffered, _ + 1, .object [(some key, content)] => do
      let value ← lookup all name key
      match content with
      | .null | .object [] => return value
      | _ => throw .malformed
    | _, _, _ => .error .malformed
  write value := .text (name value)

end Codec
end BuildPipeline.Wire
