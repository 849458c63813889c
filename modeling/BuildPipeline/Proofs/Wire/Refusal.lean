import BuildPipeline.Proofs.Wire.Reading

/-!
What holds a field twice is not read (`Codec.Doubled.refused`), however deep the field stands and
whatever else the text holds: the object that has the field is refused by the record in whose place
it stands, and what one part refuses the whole refuses.
-/

namespace BuildPipeline.Wire

open Json (Draft draft elementDrafts memberDrafts)

/-- An object is refused as a whole where its members are. -/
theorem Fields.readMembers_of_readObject {row : List Type} {fields : Fields row} {source : Source}
    {room : Nat} {ms : List (Option String × Draft)} {values : Row row}
    (read : fields.readObject source room ms = .ok values) :
    ∃ slots, fields.readMembers source room ms (noSlots row) = .ok slots := by
  obtain ⟨slots, members, -⟩ := bind_eq_ok_iff.1 read
  exact ⟨slots, members⟩

theorem read_of_mapM {α β : Type} {f : α → Except Fault β} {a : α} {as : List α} {bs : List β}
    (read : as.mapM f = .ok bs) (mem : a ∈ as) : ∃ b, f a = .ok b := by
  induction as generalizing bs with
  | nil => cases mem
  | cons first as ih =>
      rw [List.mapM_cons] at read
      obtain ⟨b, first_, rest⟩ := bind_eq_ok_iff.1 read
      obtain ⟨bs, others, -⟩ := bind_eq_ok_iff.1 rest
      rcases List.mem_cons.1 mem with rfl | mem
      · exact ⟨b, first_⟩
      · exact ih others mem

theorem count_memberDrafts (ms : List (String × Json)) (name : String) :
    ((memberDrafts ms).map Prod.fst).count (some name) = (ms.map Prod.fst).count name := by
  induction ms with
  | nil => rfl
  | cons m ms ih => simp [memberDrafts, List.count_cons, ih]

theorem Codec.Doubled.ne_null {α : Type} {codec : Codec α} {j : Json} :
    codec.Doubled j → j ≠ .null
  | .optional doubled => doubled.ne_null
  | .list _ _ | .object _ | .array _ => nofun
  | .repository doubled => doubled.ne_null

mutual

/-- What holds a field twice is not read. -/
theorem Codec.Doubled.refused {α : Type} {codec : Codec α} {j : Json} :
    codec.Doubled j → ∀ {source : Source} {room : Nat} {v : α},
      codec.read source room j.draft ≠ .ok v
  | .optional doubled, source, room, v => by
      rw [read_optional_of_ne_null doubled.ne_null]
      intro read
      obtain ⟨v, read, -⟩ := map_eq_ok_iff.1 read
      exact doubled.refused read
  | .list mem doubled, source, 0, v => nofun
  | .list mem doubled, source, room + 1, v => by
      intro read
      obtain ⟨v, read⟩ := read_of_mapM read (Json.draft_mem_elementDrafts mem)
      exact doubled.refused read
  | .object doubled, source, 0, v => nofun
  | .object doubled, source, room + 1, v => by
      intro read
      obtain ⟨values, read, -⟩ := map_eq_ok_iff.1 read
      exact doubled.refused read
  | .array doubled, source, 0, v => nofun
  | .array doubled, source, room + 1, v => by
      intro read
      obtain ⟨values, read, -⟩ := map_eq_ok_iff.1 read
      exact doubled.refused read
  | .repository doubled, source, room, v => by
      rw [read_repository]
      exact doubled.refused

theorem Fields.DoubledObject.refused {row : List Type} {fields : Fields row}
    {ms : List (String × Json)} :
    fields.DoubledObject ms → ∀ {source : Source} {room : Nat} {values : Row row},
      fields.readObject source room (memberDrafts ms) ≠ .ok values
  | .twice known twice, source, room, values => by
      intro read
      obtain ⟨slots, members⟩ := Fields.readMembers_of_readObject read
      have once := Fields.count_le_one_of_readMembers known members
      rw [count_memberDrafts] at once
      omega
  | .within finds mem doubled, source, room, values => by
      intro read
      obtain ⟨slots, members⟩ := Fields.readMembers_of_readObject read
      obtain ⟨v, read⟩ :=
        Fields.read_of_readMembers finds (Json.draft_mem_memberDrafts mem) members
      exact doubled.refused read

theorem Fields.DoubledArray.refused {row : List Type} {fields : Fields row} {js : List Json} :
    fields.DoubledArray js → ∀ {source : Source} {room : Nat} {values : Row row},
      fields.readArray source room (elementDrafts js) ≠ .ok values
  | .here doubled, source, room, values => by
      intro read
      obtain ⟨v, read, -⟩ := bind_eq_ok_iff.1 read
      exact doubled.refused read
  | .later doubled, source, room, values => by
      intro read
      obtain ⟨v, -, rest⟩ := bind_eq_ok_iff.1 read
      obtain ⟨values, rest, -⟩ := map_eq_ok_iff.1 rest
      exact doubled.refused rest

end

end BuildPipeline.Wire
