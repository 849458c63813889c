import BuildPipeline.Toml.Value

/-!
The shapes in which settings are written as TOML values. A record is a table, in which every key has
to be one of its fields, or an array of its fields in order, in which fields at the end may be
missing and what follows the last field does not count. A choice is the name of one of its variants,
or a table with that name as its only key and nothing in it.
-/

namespace BuildPipeline.Toml.Value

/-- A text. -/
def text? : Value → Option String
  | .text s => some s
  | _ => none

/-- An integer. -/
def integer? : Value → Option Int
  | .integer n => some n
  | _ => none

/-- The elements of an array. -/
def elements? : Value → Option (List Value)
  | .array _ vs => some vs
  | _ => none

/-- The values of fields in a table, if it has no other keys. -/
def fieldsOf? (names : List String) (entries : Entries) : Option (List (Option Value)) :=
  if entries.all fun entry => names.contains entry.1 then
    some (names.map fun name => Keyed.get? name entries)
  else none

/-- The values of the fields of a record, in the order of their names. -/
def fields? (names : List String) : Value → Option (List (Option Value))
  | .table _ entries => fieldsOf? names entries
  | .array _ vs => some ((List.range names.length).map fun i => vs[i]?)
  | _ => none

/-- Whether a value has nothing in it. -/
def isEmpty : Value → Bool
  | .table _ [] => true
  | .array _ [] => true
  | _ => false

/-- The name of the variant that a choice is for. -/
def variant? : Value → Option String
  | .text s => some s
  | .table _ [(key, v)] => if v.isEmpty then some key else none
  | _ => none

/-- Reads a field that may be missing. -/
def optional? {α : Type} (read : Value → Option α) : Option Value → Option (Option α)
  | none => some none
  | some v => (read v).map some

/-- Reads a field that has a default. -/
def withDefault? {α : Type} (default : α) (read : Value → Option α) : Option Value → Option α
  | none => some default
  | some v => read v

/-- Reads an array of things of one kind. -/
def listOf? {α : Type} (read : Value → Option α) (v : Value) : Option (List α) := do
  (← v.elements?).mapM read

end BuildPipeline.Toml.Value
