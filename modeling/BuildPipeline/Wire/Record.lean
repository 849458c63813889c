import BuildPipeline.Wire.Codec

/-!
Records: values with named fields. A record is written as an object, its fields in the order of
their declaration. It is read from an object with its members in any order, or from an array that
holds the fields in order.

In an object, members that the record does not have are passed over, a field may stand only once,
and a field that is missing when the object ends is reported unless it has a value for that case.
An array may stop early where the remaining fields have a value for that case, and may not go on
behind the last field.
-/

namespace BuildPipeline.Wire

open Json (Draft)

/-- A named field. `absent` is its value when an object has no such member, `short` its value when
an array ends before it; a value for which `omit` holds is not written. -/
structure Field (α : Type) where
  name : String
  codec : Codec α
  absent : Option α := none
  short : Option α := none
  omits : α → Bool := fun _ => false

namespace Field

variable {α : Type}

/-- A field that has to be there. -/
def required (name : String) (codec : Codec α) : Field α :=
  { name, codec }

/-- A field with a value for when it is missing; it is always written. -/
def defaulted (name : String) (codec : Codec α) (value : α) : Field α :=
  { name, codec, absent := some value, short := some value }

/-- A field that may be missing and is not written then. -/
def optional (name : String) (codec : Codec α) : Field (Option α) :=
  { name, codec := codec.optional, absent := some none, short := some none, omits := Option.isNone }

end Field

/-- One field for every type of a row. -/
inductive Fields : List Type → Type 1 where
  | nil : Fields []
  | cons {α : Type} {row : List Type} : Field α → Fields row → Fields (α :: row)

/-- One value for every type of a row. -/
def Row : List Type → Type
  | [] => Unit
  | α :: row => α × Row row

/-- What has been read of a row so far. -/
def Slots : List Type → Type
  | [] => Unit
  | α :: row => Option α × Slots row

namespace Fields

/-- Nothing read yet. -/
def noSlots : (row : List Type) → Slots row
  | [] => ()
  | _ :: row => (none, noSlots row)

/-- Puts a member into the slot of its field. The result is missing when the row has no field of
this name. -/
def accept {row : List Type} (source : Source) (room : Nat) (name : String) (draft : Draft) :
    Fields row → Slots row → Except Fault (Option (Slots row))
  | .nil, _ => .ok none
  | .cons field fields, (slot, slots) =>
    if name = field.name then
      if slot.isSome then .error (.duplicateField name)
      else (field.codec.read source room draft).map fun value => some (some value, slots)
    else (accept source room name draft fields slots).map fun found => found.map (slot, ·)

/-- Reads the members of an object. -/
def readMembers {row : List Type} (fields : Fields row) (source : Source) (room : Nat) :
    List (Option String × Draft) → Slots row → Except Fault (Slots row)
  | [], slots => .ok slots
  | (none, _) :: _, _ => .error .malformed
  | (some name, draft) :: members, slots =>
    (accept source room name draft fields slots).bind fun
      | some slots => readMembers fields source room members slots
      | none =>
        if draft.isWhole then readMembers fields source room members slots
        else .error .malformed

/-- The row at the end of an object. -/
def complete {row : List Type} : Fields row → Slots row → Except Fault (Row row)
  | .nil, _ => .ok ()
  | .cons field fields, (slot, slots) =>
    match slot <|> field.absent with
    | some value => (complete fields slots).map (value, ·)
    | none => .error (.missingField field.name)

/-- Reads the row from an object. -/
def readObject {row : List Type} (fields : Fields row) (source : Source) (room : Nat)
    (members : List (Option String × Draft)) : Except Fault (Row row) :=
  (readMembers fields source room members (noSlots row)).bind (complete fields)

/-- Reads the row from an array. -/
def readArray {row : List Type} (source : Source) (room : Nat) :
    Fields row → List Draft → Except Fault (Row row)
  | .nil, [] => .ok ()
  | .nil, _ :: _ => .error .malformed
  | .cons field fields, [] =>
    match field.short with
    | some value => (readArray source room fields []).map (value, ·)
    | none => .error .malformed
  | .cons field fields, draft :: drafts =>
    (field.codec.read source room draft).bind fun value =>
      (readArray source room fields drafts).map (value, ·)

/-- The members that write a row. -/
def members {row : List Type} : Fields row → Row row → List (String × Json)
  | .nil, _ => []
  | .cons field fields, (value, values) =>
    if field.omits value then members fields values
    else (field.name, field.codec.write value) :: members fields values

end Fields

/-- The codec of a record type, given by its fields and by how a value is taken apart into a row
and put together again. -/
def Codec.record {α : Type} {row : List Type} (fields : Fields row) (ofRow : Row row → α)
    (toRow : α → Row row) : Codec α where
  read
    | source, room + 1, .object members => (fields.readObject source room members).map ofRow
    | source, room + 1, .array drafts => (fields.readArray source room drafts).map ofRow
    | _, _, _ => .error .malformed
  write value := .object (fields.members (toRow value))

end BuildPipeline.Wire
