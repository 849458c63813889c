import BuildPipeline.Keyed

/-!
The values of a TOML document, and how its statements build up tables.

A table may be mentioned before it is defined: on the way to the table of a header, or by a dotted
key. What may still be added to it depends on that, so every table keeps where it comes from. A
header defines a table once; a dotted key adds only to tables that dotted keys made; an inline
table is complete where it is written.
-/

namespace BuildPipeline.Toml

/-- Where a table comes from. -/
inductive Origin where
  /-- Written as a value, in braces. -/
  | inline
  /-- Defined by a header, or the root of a document. -/
  | defined
  /-- Passed on the way to the table of a header. -/
  | passed
  /-- Made by a dotted key. -/
  | dotted
  deriving DecidableEq, Repr

/-- A value. Numbers that are not integers, truth values, dates and times are told apart from the
rest but not kept, since no setting has such a value. -/
inductive Value where
  | text (s : String)
  | integer (n : Int)
  | other
  /-- The elements of an array; a growing one is made by headers and gets more of them. -/
  | array (growing : Bool) (elements : List Value)
  | table (origin : Origin) (entries : List (String × Value))

/-- The entries of a table. -/
abbrev Entries : Type :=
  List (String × Value)

/-- A table with its origin. -/
abbrev Table : Type :=
  Origin × Entries

namespace Table

/-- The value of a table. -/
def toValue (t : Table) : Value :=
  .table t.1 t.2

/-- The ways that lead to a table: through the path of a header or through a dotted key. -/
inductive Way where
  | header
  | dotted
  deriving DecidableEq, Repr

namespace Way

/-- The origin of a table that is made on the way. -/
def origin : Way → Origin
  | header => .passed
  | dotted => .dotted

/-- Whether a table of some origin may be entered. -/
def enters : Way → Origin → Bool
  | _, .inline => false
  | header, _ => true
  | dotted, o => o != .defined

end Way

/-- Changes the table at the end of a path. Tables that are missing on the way are made. Where
headers made an array, the way goes through its last element. -/
def change? (way : Way) (f : Table → Option Table) : List String → Table → Option Table
  | [], t => f t
  | key :: path, (origin, entries) =>
    let put (v : Value) : Table := (origin, Keyed.put key v entries)
    match Keyed.get? key entries with
    | none => (change? way f path (way.origin, [])).map fun t => put t.toValue
    | some (.table o es) =>
      if way.enters o then (change? way f path (o, es)).map fun t => put t.toValue else none
    | some (.array true elements) =>
      match elements.getLast? with
      | some (.table o es) =>
        (change? way f path (o, es)).map fun t =>
          put (.array true (elements.dropLast ++ [t.toValue]))
      | _ => none
    | some _ => none

/-- A table with a new entry. Behind a dotted key the entry goes into a table that dotted keys
made. -/
def insert? (path : List String) (key : String) (v : Value) : Table → Option Table :=
  change? .dotted
    (fun (origin, entries) =>
      if path ≠ [] ∧ origin ≠ .dotted then none
      else if (Keyed.get? key entries).isSome then none
      else some (origin, Keyed.put key v entries))
    path

/-- A table in which a header defines a table: a new one, or one that was only passed so far. -/
def define? (path : List String) (key : String) : Table → Option Table :=
  change? .header
    (fun (origin, entries) =>
      match Keyed.get? key entries with
      | none => some (origin, Keyed.put key (.table .defined []) entries)
      | some (.table .passed es) => some (origin, Keyed.put key (.table .defined es) entries)
      | some _ => none)
    path

/-- A table in which a header adds an empty element to an array that headers make. -/
def extend? (path : List String) (key : String) : Table → Option Table :=
  change? .header
    (fun (origin, entries) =>
      match Keyed.get? key entries with
      | none => some (origin, Keyed.put key (.array true [.table .defined []]) entries)
      | some (.array true elements) =>
        some (origin, Keyed.put key (.array true (elements ++ [.table .defined []])) entries)
      | some _ => none)
    path

end Table
end BuildPipeline.Toml
