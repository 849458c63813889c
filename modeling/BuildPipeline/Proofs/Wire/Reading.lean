import BuildPipeline.Proofs.Wire.Admission

/-!
Every form of a value is read as the value (`Codec.Form.read`), from a stream or from a buffer. The
children of a repository are read with one level less at every step; this bound is never met before
the one on the depth of the text, so a repository is read as a record like the others
(`read_repository`).
-/

namespace BuildPipeline.Wire

open Json (Draft draft elementDrafts memberDrafts elementDepth memberDepth)

/-! ## Repositories of any depth -/

namespace Fields

variable {row : List Type} {source : Source} {room : Nat}

/-- Two rows of fields differ at most in how their values are written, or are read elsewhere. -/
def Agree (source : Source) (room : Nat) : {row : List Type} → Fields row → Fields row → Prop
  | _, .nil, .nil => True
  | _, .cons field fields, .cons field' fields' =>
    field.name = field'.name ∧ field.absent = field'.absent ∧ field.short = field'.short ∧
      field.codec.read source room = field'.codec.read source room ∧
      Agree source room fields fields'

theorem Agree.accept {fields fields' : Fields row} (agree : Agree source room fields fields')
    (name : String) (draft : Draft) (slots : Slots row) :
    fields.accept source room name draft slots = fields'.accept source room name draft slots := by
  induction fields with
  | nil =>
      cases fields'
      rfl
  | cons field fields ih =>
      cases fields' with
      | cons field' fields' =>
          obtain ⟨same, -, -, read, agree⟩ := agree
          obtain ⟨slot, slots⟩ := slots
          rw [Fields.accept, Fields.accept, same, read, ih agree]

theorem Agree.complete {fields fields' : Fields row} (agree : Agree source room fields fields')
    (slots : Slots row) : fields.complete slots = fields'.complete slots := by
  induction fields with
  | nil =>
      cases fields'
      rfl
  | cons field fields ih =>
      cases fields' with
      | cons field' fields' =>
          obtain ⟨same, absent, -, -, agree⟩ := agree
          obtain ⟨slot, slots⟩ := slots
          rw [Fields.complete, Fields.complete, same, absent, ih agree]

theorem Agree.readObject {fields fields' : Fields row} (agree : Agree source room fields fields')
    (ms : List (Option String × Draft)) :
    fields.readObject source room ms = fields'.readObject source room ms := by
  have members : ∀ slots, fields.readMembers source room ms slots =
      fields'.readMembers source room ms slots := by
    induction ms with
    | nil => exact fun slots => rfl
    | cons m ms ih =>
        intro slots
        obtain ⟨_ | name, draft⟩ := m
        · rfl
        · simp only [readMembers, agree.accept, ih]
  have complete_ : fields.complete = fields'.complete := funext agree.complete
  rw [Fields.readObject, Fields.readObject, members, complete_]

theorem Agree.readArray {fields fields' : Fields row} (agree : Agree source room fields fields')
    (ds : List Draft) : fields.readArray source room ds = fields'.readArray source room ds := by
  induction fields generalizing ds with
  | nil =>
      cases fields'
      rfl
  | cons field fields ih =>
      cases fields' with
      | cons field' fields' =>
          obtain ⟨-, -, short, read, agree⟩ := agree
          cases ds with
          | nil => rw [Fields.readArray, Fields.readArray, short, ih agree]
          | cons d ds => simp only [Fields.readArray, read, ih agree]

end Fields

theorem agree_repositoryFields {child child' : Codec Repository} {source : Source} {room : Nat}
    (same : (Codec.list child).read source room = (Codec.list child').read source room) :
    Fields.Agree source room (repositoryFields child) (repositoryFields child') :=
  ⟨rfl, rfl, rfl, rfl, rfl, rfl, rfl, rfl, rfl, rfl, rfl, rfl, rfl, rfl, rfl, rfl, rfl, rfl, rfl,
    same, trivial⟩

theorem read_list_of_read {α : Type} {codec codec' : Codec α} {source : Source} {room : Nat}
    (same : ∀ below < room, codec.read source below = codec'.read source below) :
    (Codec.list codec).read source room = (Codec.list codec').read source room := by
  funext draft
  cases room with
  | zero => cases draft <;> rfl
  | succ below =>
      cases draft with
      | array ds =>
          change ds.mapM (codec.read source below) = ds.mapM (codec'.read source below)
          rw [same below (Nat.lt_succ_self below)]
      | _ => rfl

/-- More levels than the text may nest make no difference. -/
theorem read_repositoryWithin (source : Source) {levels room : Nat} (enough : room ≤ levels) :
    (repositoryWithin levels).read source room = (repositoryWithin room).read source room := by
  induction room using Nat.strongRecOn generalizing levels with
  | ind room ih =>
      funext draft
      cases room with
      | zero =>
          cases levels with
          | zero => rfl
          | succ levels => cases draft <;> rfl
      | succ room =>
          cases levels with
          | zero => omega
          | succ levels =>
              have agree : Fields.Agree source room (repositoryFields (repositoryWithin levels))
                  (repositoryFields (repositoryWithin room)) := by
                refine agree_repositoryFields (read_list_of_read fun below deeper => ?_)
                rw [ih below (by omega) (by omega), ih below (by omega) (Nat.le_of_lt deeper)]
              cases draft with
              | object ms => exact congrArg (Except.map _) (agree.readObject ms)
              | array ds => exact congrArg (Except.map _) (agree.readArray ds)
              | _ => rfl

/-- A repository is read as the record that it is. -/
theorem read_repository (source : Source) (room : Nat) (draft : Draft) :
    repository.read source room draft = repositoryRecord.read source room draft := by
  cases room with
  | zero => cases draft <;> rfl
  | succ room =>
      have agree : Fields.Agree source room (repositoryFields (repositoryWithin room))
          (repositoryFields repository) :=
        agree_repositoryFields (read_list_of_read fun below deeper =>
          read_repositoryWithin source (Nat.le_of_lt deeper))
      cases draft with
      | object ms => exact congrArg (Except.map _) (agree.readObject ms)
      | array ds => exact congrArg (Except.map _) (agree.readArray ds)
      | _ => rfl

/-! ## Forms are read -/

/-- Every variant is found by its name, where the names are distinct. -/
theorem lookup_name {α : Type} {all : List α} {name : α → String} (distinct : (all.map name).Nodup)
    {v : α} (mem : v ∈ all) : Codec.lookup all name (name v) = .ok v := by
  have found : all.find? (name · == name v) = some v := by
    induction all with
    | nil => cases mem
    | cons first all ih =>
        obtain ⟨fresh, distinct⟩ := List.nodup_cons.1 distinct
        rcases List.mem_cons.1 mem with rfl | mem
        · simp
        · have other : name first ≠ name v := fun same => fresh (same ▸ List.mem_map_of_mem mem)
          rw [List.find?_cons_of_neg (by simpa using other)]
          exact ih distinct mem
  rw [Codec.lookup, found]

theorem read_natural {max n : Nat} (small : n ≤ max) (word : max ≤ Text.Decimal.wordLimit)
    (source : Source) (room : Nat) :
    (Codec.natural max).read source room (Json.number n).draft = .ok n := by
  rw [draft, Json.ofWhole_digits (Nat.le_trans small word)]
  exact if_pos small

/-- Only `null` says that a value is missing. -/
theorem read_optional_of_ne_null {α : Type} {codec : Codec α} {j : Json} (solid : j ≠ .null)
    {source : Source} {room : Nat} :
    codec.optional.read source room j.draft = (codec.read source room j.draft).map some := by
  cases j with
  | null => exact absurd rfl solid
  | _ => rfl

theorem mapM_cons_eq_ok {α β : Type} {f : α → Except Fault β} {a : α} {as : List α} {b : β}
    {bs : List β} (first : f a = .ok b) (others : as.mapM f = .ok bs) :
    (a :: as).mapM f = .ok (b :: bs) := by
  rw [List.mapM_cons, first]
  change (as.mapM f >>= fun bs => pure (b :: bs)) = _
  rw [others]
  rfl

theorem isWhole_of_isScalar {others : List (String × Json)} {names : List String}
    (scalar : ∀ m ∈ others, m.1 ∉ names ∧ m.2.isScalar) :
    ∀ m ∈ memberDrafts others, (∃ name, m.1 = some name ∧ name ∉ names) ∧ m.2.isWhole = true := by
  intro m mem
  rw [Json.memberDrafts_eq_map] at mem
  obtain ⟨⟨name, j⟩, other, rfl⟩ := List.mem_map.1 mem
  exact ⟨⟨name, rfl, (scalar _ other).1⟩, Json.isWhole_draft j⟩

theorem memberDrafts_perm {ms ms' : List (String × Json)} (perm : ms.Perm ms') :
    (memberDrafts ms).Perm (memberDrafts ms') := by
  rw [Json.memberDrafts_eq_map, Json.memberDrafts_eq_map]
  exact perm.map _

theorem memberDrafts_append (ms ms' : List (String × Json)) :
    memberDrafts (ms ++ ms') = memberDrafts ms ++ memberDrafts ms' := by
  rw [Json.memberDrafts_eq_map, Json.memberDrafts_eq_map, Json.memberDrafts_eq_map,
    List.map_append]

mutual

/-- A form of a value is read as the value. -/
theorem Codec.Form.read {α : Type} {codec : Codec α} {v : α} {j : Json} :
    codec.Form v j → ∀ (source : Source) {room : Nat}, j.depth ≤ room →
      codec.read source room j.draft = .ok v
  | .text s, _, _, _ => rfl
  | .natural small word, source, room, _ => read_natural small word source room
  | .spelled back, _, _, _ => by
      simp only [draft, Codec.spelled, back]
  | .enumeration distinct mem, _, _, _ => lookup_name distinct mem
  | .imap form own, source, _, shallow => by
      have read := form.read source shallow
      simp only [Codec.imap, read, Except.map, own]
  | .none, _, _, _ => rfl
  | .some form solid, source, _, shallow => by
      rw [read_optional_of_ne_null solid, form.read source shallow]
      rfl
  | .list forms, source, _ + 1, shallow => forms.read source (Nat.le_of_succ_le_succ shallow)
  | .object members own, source, _ + 1, shallow =>
      map_eq_ok_iff.2 ⟨_, members.read source (Nat.le_of_succ_le_succ shallow), own⟩
  | .array elements own, source, _ + 1, shallow =>
      map_eq_ok_iff.2 ⟨_, elements.read source (Nat.le_of_succ_le_succ shallow), own⟩
  | .repository form, source, room, shallow => by
      rw [read_repository]
      exact form.read source shallow

theorem Codec.Forms.read {α : Type} {codec : Codec α} {vs : List α} {js : List Json} :
    codec.Forms vs js → ∀ (source : Source) {room : Nat}, elementDepth js ≤ room →
      (elementDrafts js).mapM (codec.read source room) = .ok vs
  | .nil, _, _, _ => rfl
  | .cons form forms, source, _, shallow =>
      mapM_cons_eq_ok (form.read source (Nat.max_le.1 shallow).1)
        (forms.read source (Nat.max_le.1 shallow).2)

theorem Fields.Object.read {row : List Type} {fields : Fields row} {values : Row row}
    {ms : List (String × Json)} :
    fields.Object values ms → ∀ (source : Source) {room : Nat}, memberDepth ms ≤ room →
      fields.readObject source room (memberDrafts ms) = .ok values
  | .mk distinct members others perm, source, room, shallow => by
      have known := members.taken source (Json.memberDepth_le_iff.2 fun m mem =>
        Json.memberDepth_le_iff.1 shallow m (perm.mem_iff.2 (List.mem_append_left _ mem)))
      exact Fields.readObject_of_taken distinct known (isWhole_of_isScalar others)
        (memberDrafts_append _ _ ▸ memberDrafts_perm perm)

theorem Fields.Members.taken {row : List Type} {fields : Fields row} {values : Row row}
    {ms : List (String × Json)} :
    fields.Members values ms → ∀ (source : Source) {room : Nat}, memberDepth ms ≤ room →
      fields.Taken source room values (memberDrafts ms)
  | .nil, _, _, _ => .nil
  | .keep form members, source, _, shallow =>
      .keep (form.read source (Nat.max_le.1 shallow).1)
        (members.taken source (Nat.max_le.1 shallow).2)
  | .leave absent members, source, _, shallow => .leave absent (members.taken source shallow)

theorem Fields.Array.read {row : List Type} {fields : Fields row} {values : Row row}
    {js : List Json} :
    fields.Array values js → ∀ (source : Source) {room : Nat}, elementDepth js ≤ room →
      fields.readArray source room (elementDrafts js) = .ok values
  | .nil, _, _, _ => rfl
  | .cons form elements, source, _, shallow => by
      rw [elementDrafts, Fields.readArray, form.read source (Nat.max_le.1 shallow).1,
        Except.bind, elements.read source (Nat.max_le.1 shallow).2]
      rfl

end

end BuildPipeline.Wire
