import BuildPipeline.Proofs.Json.Trees
import BuildPipeline.Wire.Request

/-!
The forms in which a value may be written. A record has many: its members may come in any order and
with others between them that the record does not know, a field may be left out where it holds what
it has when it is missing, and the whole record may be the array of its fields. `Codec.Form` says
which JSON values are forms of a value, at every depth at once; `Tagged.Form` does so for the types
whose variants are named by a tag. Numbers, texts and what is written as a text have one form only.

An object with a field that stands twice is the form of nothing. `Codec.Doubled` and
`Tagged.Doubled` say that a JSON value holds such an object in the place of a record, at any depth
and whatever else it holds.
-/

namespace BuildPipeline

/-- What may be passed over in an object: no array and no object. -/
def Json.isScalar : Json → Bool
  | .null | .bool _ | .number _ | .text _ => true
  | .array _ | .object _ => false

namespace Wire

/-- The names of a row of fields. -/
def Fields.names {row : List Type} : Fields row → List String
  | .nil => []
  | .cons field fields => field.name :: fields.names

/-- A repository as a record, its children of any depth. -/
def repositoryRecord : Codec Repository :=
  .record (repositoryFields repository)
    (fun (kind, uri, branch, metadata, children, ()) => { kind, uri, branch, metadata, children })
    (fun r => (r.kind, r.uri, r.branch, r.metadata, r.children, ()))

/-! ## Forms -/

mutual

/-- A JSON value is a form of a value. -/
inductive Codec.Form : {α : Type} → Codec α → α → Json → Prop where
  | text (s : String) : Codec.Form .text s (.text s)
  | natural {max n : Nat} :
    n ≤ max → max ≤ Text.Decimal.wordLimit → Codec.Form (.natural max) n (.number n)
  /-- The notation reads back what it writes. -/
  | spelled {α : Type} {parse : String → Option α} {spell : α → String} {v : α} :
    parse (spell v) = some v → Codec.Form (.spelled parse spell) v (.text (spell v))
  /-- Every variant has a name of its own. -/
  | enumeration {α : Type} {all : List α} {name : α → String} {v : α} :
    (all.map name).Nodup → v ∈ all → Codec.Form (.enumeration all name) v (.text (name v))
  | imap {α β : Type} {codec : Codec α} {wrap : α → β} {unwrap : β → α} {v : α} {w : β} {j : Json} :
    codec.Form v j → wrap v = w → Codec.Form (codec.imap wrap unwrap) w j
  | none {α : Type} {codec : Codec α} : Codec.Form codec.optional none .null
  | some {α : Type} {codec : Codec α} {v : α} {j : Json} :
    codec.Form v j → j ≠ .null → Codec.Form codec.optional (some v) j
  | list {α : Type} {codec : Codec α} {vs : List α} {js : List Json} :
    codec.Forms vs js → Codec.Form (.list codec) vs (.array js)
  /-- A record as an object. -/
  | object {α : Type} {row : List Type} {fields : Fields row} {ofRow : Row row → α}
    {toRow : α → Row row} {values : Row row} {v : α} {ms : List (String × Json)} :
    fields.Object values ms → ofRow values = v →
      Codec.Form (.record fields ofRow toRow) v (.object ms)
  /-- A record as the array of its fields. -/
  | array {α : Type} {row : List Type} {fields : Fields row} {ofRow : Row row → α}
    {toRow : α → Row row} {values : Row row} {v : α} {js : List Json} :
    fields.Array values js → ofRow values = v →
      Codec.Form (.record fields ofRow toRow) v (.array js)
  | repository {r : Repository} {j : Json} :
    repositoryRecord.Form r j → Codec.Form repository r j

/-- Some JSON values are forms of the values of a list, one for each. -/
inductive Codec.Forms : {α : Type} → Codec α → List α → List Json → Prop where
  | nil {α : Type} {codec : Codec α} : Codec.Forms codec [] []
  | cons {α : Type} {codec : Codec α} {v : α} {vs : List α} {j : Json} {js : List Json} :
    codec.Form v j → codec.Forms vs js → Codec.Forms codec (v :: vs) (j :: js)

/-- The members of an object that is a form of a row: those of the fields and any others that hold
no array and no object, in any order. -/
inductive Fields.Object :
    {row : List Type} → Fields row → Row row → List (String × Json) → Prop where
  | mk {row : List Type} {fields : Fields row} {values : Row row}
    {ms known others : List (String × Json)} :
    fields.names.Nodup → fields.Members values known →
      (∀ m ∈ others, m.1 ∉ fields.names ∧ m.2.isScalar) → ms.Perm (known ++ others) →
      Fields.Object fields values ms

/-- The members of the fields, some of which may be left out. -/
inductive Fields.Members :
    {row : List Type} → Fields row → Row row → List (String × Json) → Prop where
  | nil : Fields.Members .nil () []
  | keep {α : Type} {row : List Type} {field : Field α} {fields : Fields row} {v : α}
    {values : Row row} {j : Json} {ms : List (String × Json)} :
    field.codec.Form v j → fields.Members values ms →
      Fields.Members (.cons field fields) (v, values) ((field.name, j) :: ms)
  /-- A field is left out where it holds what it has when it is missing. -/
  | leave {α : Type} {row : List Type} {field : Field α} {fields : Fields row} {v : α}
    {values : Row row} {ms : List (String × Json)} :
    field.absent = some v → fields.Members values ms →
      Fields.Members (.cons field fields) (v, values) ms

/-- The elements of an array that is a form of a row: all its fields in order. -/
inductive Fields.Array : {row : List Type} → Fields row → Row row → List Json → Prop where
  | nil : Fields.Array .nil () []
  | cons {α : Type} {row : List Type} {field : Field α} {fields : Fields row} {v : α}
    {values : Row row} {j : Json} {js : List Json} :
    field.codec.Form v j → fields.Array values js →
      Fields.Array (.cons field fields) (v, values) (j :: js)

end

/-- A JSON value is a form of a value of a tagged type: an object with the tag somewhere among its
members, or an array with the tag in front. -/
inductive Tagged.Form {α : Type} (variants : List (Variant α)) : α → Json → Prop where
  | object {row : List Type} {name : String} {fields : Fields row} {ofRow : Row row → α}
    {values : Row row} {ms rest : List (String × Json)} :
    .of name fields ofRow ∈ variants → fields.Object values rest → (∀ m ∈ rest, m.1 ≠ tag) →
      ms.Perm ((tag, .text name) :: rest) → Tagged.Form variants (ofRow values) (.object ms)
  | array {row : List Type} {name : String} {fields : Fields row} {ofRow : Row row → α}
    {values : Row row} {js : List Json} :
    .of name fields ofRow ∈ variants → fields.Array values js →
      Tagged.Form variants (ofRow values) (.array (.text name :: js))

/-! ## Fields that stand twice -/

/-- The field is the one of the row for which its name stands. -/
inductive Fields.Finds {α : Type} (field : Field α) : {row : List Type} → Fields row → Prop where
  | head {row : List Type} {fields : Fields row} : Fields.Finds field (.cons field fields)
  | tail {β : Type} {row : List Type} {other : Field β} {fields : Fields row} :
    field.name ≠ other.name → Fields.Finds field fields → Fields.Finds field (.cons other fields)

mutual

/-- Somewhere in a JSON value there is an object, in the place of a record, in which a field of the
record stands twice. -/
inductive Codec.Doubled : {α : Type} → Codec α → Json → Prop where
  | optional {α : Type} {codec : Codec α} {j : Json} :
    codec.Doubled j → Codec.Doubled codec.optional j
  | list {α : Type} {codec : Codec α} {j : Json} {js : List Json} :
    j ∈ js → codec.Doubled j → Codec.Doubled (.list codec) (.array js)
  | object {α : Type} {row : List Type} {fields : Fields row} {ofRow : Row row → α}
    {toRow : α → Row row} {ms : List (String × Json)} :
    fields.DoubledObject ms → Codec.Doubled (.record fields ofRow toRow) (.object ms)
  | array {α : Type} {row : List Type} {fields : Fields row} {ofRow : Row row → α}
    {toRow : α → Row row} {js : List Json} :
    fields.DoubledArray js → Codec.Doubled (.record fields ofRow toRow) (.array js)
  | repository {j : Json} : repositoryRecord.Doubled j → Codec.Doubled repository j

/-- A field stands twice in the object, or in what it holds for one of the fields. -/
inductive Fields.DoubledObject : {row : List Type} → Fields row → List (String × Json) → Prop where
  | twice {row : List Type} {fields : Fields row} {name : String} {ms : List (String × Json)} :
    name ∈ fields.names → 1 < (ms.map Prod.fst).count name → Fields.DoubledObject fields ms
  | within {α : Type} {row : List Type} {field : Field α} {fields : Fields row} {j : Json}
    {ms : List (String × Json)} :
    fields.Finds field → (field.name, j) ∈ ms → field.codec.Doubled j →
      Fields.DoubledObject fields ms

/-- A field stands twice in what the array holds for one of the fields. -/
inductive Fields.DoubledArray : {row : List Type} → Fields row → List Json → Prop where
  | here {α : Type} {row : List Type} {field : Field α} {fields : Fields row} {j : Json}
    {js : List Json} : field.codec.Doubled j → Fields.DoubledArray (.cons field fields) (j :: js)
  | later {α : Type} {row : List Type} {field : Field α} {fields : Fields row} {j : Json}
    {js : List Json} : fields.DoubledArray js → Fields.DoubledArray (.cons field fields) (j :: js)

end

/-- In an object of a tagged type the tag stands twice, or a field of the variant that it names; or
one does in what the object or array holds for a field. -/
inductive Tagged.Doubled {α : Type} (variants : List (Variant α)) : Json → Prop where
  | tag {ms : List (String × Json)} :
    1 < (ms.map Prod.fst).count Tagged.tag → Tagged.Doubled variants (.object ms)
  | object {row : List Type} {name : String} {fields : Fields row} {ofRow : Row row → α}
    {ms rest : List (String × Json)} :
    .of name fields ofRow ∈ variants → ms.Perm ((Tagged.tag, .text name) :: rest) →
      fields.DoubledObject rest → Tagged.Doubled variants (.object ms)
  | array {row : List Type} {name : String} {fields : Fields row} {ofRow : Row row → α}
    {js : List Json} :
    .of name fields ofRow ∈ variants → fields.DoubledArray js →
      Tagged.Doubled variants (.array (.text name :: js))

end Wire
end BuildPipeline
