import BuildPipeline.Proofs.Wire.Forms

/-!
What reading the members of an object comes to. Every member goes into the empty slot of its field
or, where the record has no such field, is passed over (`Fields.Admits`). Members that are admitted
one after the other are admitted in any order, with the same slots in the end
(`Fields.readMembers_perm`), so it is enough to look at an order that suits: the fields in the order
of the record, then all others, where something is to be read (`Fields.readObject_of_taken`), and
one or two members in front, where reading has to fail.
-/

namespace BuildPipeline.Wire

theorem map_eq_ok_iff {α β : Type} {f : α → β} {x : Except Fault α} {b : β} :
    x.map f = .ok b ↔ ∃ a, x = .ok a ∧ f a = b := by
  cases x <;> simp [Except.map]

theorem bind_eq_ok_iff {α β : Type} {f : α → Except Fault β} {x : Except Fault α} {b : β} :
    x.bind f = .ok b ↔ ∃ a, x = .ok a ∧ f a = .ok b := by
  cases x <;> simp [Except.bind]

namespace Fields

open Json (Draft)

section

variable {row : List Type} {source : Source} {room : Nat}

/-- A member goes into the slot of its field, which was empty. -/
def Accepts (source : Source) (room : Nat) (name : String) (draft : Draft) :
    {row : List Type} → Fields row → Slots row → Slots row → Prop
  | _, .nil, _, _ => False
  | _, .cons field fields, (slot, slots), (slot', slots') =>
    (name = field.name ∧ slot = none ∧ (field.codec.read source room draft).map some = .ok slot' ∧
      slots' = slots) ∨
    (name ≠ field.name ∧ slot' = slot ∧ Accepts source room name draft fields slots slots')

/-- A member goes into the slot of its field or, where there is none, is whole and passed over. -/
def Admits (source : Source) (room : Nat) (fields : Fields row) (m : Option String × Draft)
    (slots slots' : Slots row) : Prop :=
  ∃ name, m.1 = some name ∧ (fields.Accepts source room name m.2 slots slots' ∨
    (name ∉ fields.names ∧ m.2.isWhole = true ∧ slots' = slots))

theorem accept_eq_ok_some_iff {name : String} {draft : Draft} {fields : Fields row}
    {slots slots' : Slots row} :
    accept source room name draft fields slots = .ok (some slots') ↔
      fields.Accepts source room name draft slots slots' := by
  induction fields with
  | nil => exact ⟨nofun, nofun⟩
  | cons field fields ih =>
      obtain ⟨slot, slots⟩ := slots
      obtain ⟨slot', slots'⟩ := slots'
      rw [accept, Accepts]
      split
      · rename_i same
        constructor
        · intro accepted
          refine .inl ⟨same, ?_⟩
          cases slot with
          | some v => cases accepted
          | none =>
              cases read : field.codec.read source room draft with
              | error fault =>
                  rw [read] at accepted
                  cases accepted
              | ok v =>
                  rw [read] at accepted
                  obtain ⟨rfl, rfl⟩ := Prod.mk.inj (Option.some.inj (Except.ok.inj accepted))
                  exact ⟨rfl, rfl, rfl⟩
        · rintro (⟨-, rfl, filled, rfl⟩ | ⟨other, -⟩)
          · obtain ⟨v, read, rfl⟩ := map_eq_ok_iff.1 filled
            exact map_eq_ok_iff.2 ⟨v, read, rfl⟩
          · exact absurd same other
      · rename_i other
        constructor
        · intro accepted
          obtain ⟨found, rest, eq⟩ := map_eq_ok_iff.1 accepted
          cases found with
          | none => cases eq
          | some mid =>
              obtain ⟨rfl, rfl⟩ := Prod.mk.inj (Option.some.inj eq)
              exact .inr ⟨other, rfl, ih.1 rest⟩
        · rintro (⟨same, -⟩ | ⟨-, rfl, accepted⟩)
          · exact absurd same other
          · rw [ih.2 accepted]
            rfl

theorem accept_eq_ok_none_iff {name : String} {draft : Draft} {fields : Fields row}
    {slots : Slots row} :
    accept source room name draft fields slots = .ok none ↔ name ∉ fields.names := by
  induction fields with
  | nil => exact ⟨fun _ => nofun, fun _ => rfl⟩
  | cons field fields ih =>
      obtain ⟨slot, slots⟩ := slots
      rw [accept, names, List.mem_cons, not_or]
      split
      · rename_i same
        refine ⟨fun passed => ?_, fun other => absurd same other.1⟩
        split at passed
        · cases passed
        · obtain ⟨v, -, eq⟩ := map_eq_ok_iff.1 passed
          cases eq
      · rename_i other
        rw [map_eq_ok_iff]
        constructor
        · rintro ⟨found, passed, eq⟩
          cases found with
          | none => exact ⟨other, ih.1 passed⟩
          | some mid => cases eq
        · exact fun unknown => ⟨none, ih.2 unknown.2, rfl⟩

theorem readMembers_cons_iff {fields : Fields row} {m : Option String × Draft}
    {ms : List (Option String × Draft)} {slots slots' : Slots row} :
    fields.readMembers source room (m :: ms) slots = .ok slots' ↔
      ∃ mid, fields.Admits source room m slots mid ∧
        fields.readMembers source room ms mid = .ok slots' := by
  obtain ⟨name, draft⟩ := m
  cases name with
  | none =>
      refine ⟨nofun, ?_⟩
      rintro ⟨mid, ⟨name, eq, -⟩, -⟩
      cases eq
  | some name =>
      rw [readMembers, bind_eq_ok_iff]
      constructor
      · rintro ⟨found, accepted, rest⟩
        cases found with
        | some mid => exact ⟨mid, ⟨name, rfl, .inl (accept_eq_ok_some_iff.1 accepted)⟩, rest⟩
        | none =>
            cases whole : draft.isWhole with
            | false => simp [whole] at rest
            | true =>
                simp only [whole, if_true] at rest
                have unknown := accept_eq_ok_none_iff.1 accepted
                exact ⟨slots, ⟨name, rfl, .inr ⟨unknown, whole, rfl⟩⟩, rest⟩
      · rintro ⟨mid, ⟨name', eq, accepted | ⟨unknown, whole, rfl⟩⟩, rest⟩
        · cases eq
          exact ⟨some mid, accept_eq_ok_some_iff.2 accepted, rest⟩
        · cases eq
          refine ⟨none, accept_eq_ok_none_iff.2 unknown, ?_⟩
          have whole : draft.isWhole = true := whole
          simp only [whole, if_true]
          exact rest

/-! ## The order of the members -/

/-- A slot that was filled is not filled again. -/
theorem Accepts.not_again {name : String} {draft draft' : Draft} {fields : Fields row}
    {slots mid slots' : Slots row} (first : fields.Accepts source room name draft slots mid) :
    ¬fields.Accepts source room name draft' mid slots' := by
  intro second
  induction fields with
  | nil => exact first.elim
  | cons field fields ih =>
      obtain ⟨slot, slots⟩ := slots
      obtain ⟨slot₁, mid⟩ := mid
      obtain ⟨slot', slots'⟩ := slots'
      rcases first with ⟨same, -, filled, -⟩ | ⟨other, -, first⟩
      · rcases second with ⟨-, rfl, -⟩ | ⟨other, -⟩
        · obtain ⟨v, -, eq⟩ := map_eq_ok_iff.1 filled
          cases eq
        · exact other same
      · rcases second with ⟨same, -⟩ | ⟨-, -, second⟩
        · exact other same
        · exact ih first second

theorem Accepts.swap {name name' : String} {draft draft' : Draft} {fields : Fields row}
    {slots mid slots' : Slots row} (first : fields.Accepts source room name draft slots mid)
    (second : fields.Accepts source room name' draft' mid slots') :
    ∃ mid', fields.Accepts source room name' draft' slots mid' ∧
      fields.Accepts source room name draft mid' slots' := by
  induction fields with
  | nil => exact first.elim
  | cons field fields ih =>
      obtain ⟨slot, slots⟩ := slots
      obtain ⟨slot₁, mid⟩ := mid
      obtain ⟨slot', slots'⟩ := slots'
      rcases first with ⟨same, empty, filled, rfl⟩ | ⟨other, rfl, first⟩
      · rcases second with ⟨same', rfl, -⟩ | ⟨other', rfl, second⟩
        · obtain ⟨v, -, eq⟩ := map_eq_ok_iff.1 filled
          cases eq
        · exact ⟨(slot, slots'), .inr ⟨other', rfl, second⟩, .inl ⟨same, empty, filled, rfl⟩⟩
      · rcases second with ⟨same', empty, filled, rfl⟩ | ⟨other', rfl, second⟩
        · exact ⟨(slot', slots), .inl ⟨same', empty, filled, rfl⟩, .inr ⟨other, rfl, first⟩⟩
        · obtain ⟨mid', first', second'⟩ := ih first second
          exact ⟨(slot', mid'), .inr ⟨other', rfl, first'⟩, .inr ⟨other, rfl, second'⟩⟩

theorem Admits.swap {fields : Fields row} {m m' : Option String × Draft}
    {slots mid slots' : Slots row} (first : fields.Admits source room m slots mid)
    (second : fields.Admits source room m' mid slots') :
    ∃ mid', fields.Admits source room m' slots mid' ∧ fields.Admits source room m mid' slots' := by
  obtain ⟨name, eq, first⟩ := first
  obtain ⟨name', eq', second⟩ := second
  rcases first with first | ⟨unknown, whole, rfl⟩
  · rcases second with second | ⟨unknown', whole', rfl⟩
    · obtain ⟨mid', first', second'⟩ := first.swap second
      exact ⟨mid', ⟨name', eq', .inl first'⟩, ⟨name, eq, .inl second'⟩⟩
    · exact ⟨slots, ⟨name', eq', .inr ⟨unknown', whole', rfl⟩⟩, ⟨name, eq, .inl first⟩⟩
  · exact ⟨slots', ⟨name', eq', second⟩, ⟨name, eq, .inr ⟨unknown, whole, rfl⟩⟩⟩

/-- Members that can be read can be read in any order, to the same end. -/
theorem readMembers_perm {fields : Fields row} {ms ms' : List (Option String × Draft)}
    (perm : ms.Perm ms') {slots slots' : Slots row}
    (read : fields.readMembers source room ms slots = .ok slots') :
    fields.readMembers source room ms' slots = .ok slots' := by
  induction perm generalizing slots with
  | nil => exact read
  | cons m perm ih =>
      obtain ⟨mid, admitted, rest⟩ := readMembers_cons_iff.1 read
      exact readMembers_cons_iff.2 ⟨mid, admitted, ih rest⟩
  | swap m m' ms =>
      obtain ⟨mid, first, read⟩ := readMembers_cons_iff.1 read
      obtain ⟨mid', second, rest⟩ := readMembers_cons_iff.1 read
      obtain ⟨mid, first, second⟩ := first.swap second
      exact readMembers_cons_iff.2 ⟨mid, first, readMembers_cons_iff.2 ⟨mid', second, rest⟩⟩
  | trans perm perm' ih ih' => exact ih' (ih read)

theorem readObject_perm {fields : Fields row} {ms ms' : List (Option String × Draft)}
    {values : Row row} (perm : ms.Perm ms') (read : fields.readObject source room ms = .ok values) :
    fields.readObject source room ms' = .ok values := by
  obtain ⟨slots, members, complete_⟩ := bind_eq_ok_iff.1 read
  exact bind_eq_ok_iff.2 ⟨slots, readMembers_perm perm members, complete_⟩

/-! ## Members that are read -/

/-- The members of the fields in the order of the record, each read as its value; some are left out
and have their value anyway. -/
inductive Taken (source : Source) (room : Nat) :
    {row : List Type} → Fields row → Row row → List (Option String × Draft) → Prop where
  | nil : Taken source room .nil () []
  | keep {α : Type} {row : List Type} {field : Field α} {fields : Fields row} {v : α}
    {values : Row row} {draft : Draft} {ms : List (Option String × Draft)} :
    field.codec.read source room draft = .ok v → Taken source room fields values ms →
      Taken source room (.cons field fields) (v, values) ((some field.name, draft) :: ms)
  | leave {α : Type} {row : List Type} {field : Field α} {fields : Fields row} {v : α}
    {values : Row row} {ms : List (Option String × Draft)} :
    field.absent = some v → Taken source room fields values ms →
      Taken source room (.cons field fields) (v, values) ms

/-- A name that no field has is the name of none of the members. -/
theorem Taken.ne_of_not_mem_names {fields : Fields row} {values : Row row}
    {ms : List (Option String × Draft)} (taken : Taken source room fields values ms)
    {name : String} (unknown : name ∉ fields.names) {m : Option String × Draft} (mem : m ∈ ms) :
    m.1 ≠ some name := by
  induction taken with
  | nil => cases mem
  | keep read taken ih =>
      rw [names, List.mem_cons, not_or] at unknown
      obtain ⟨other, unknown⟩ := unknown
      rcases List.mem_cons.1 mem with rfl | mem
      · exact fun eq => other (Option.some.inj eq).symm
      · exact ih unknown mem
  | leave absent taken ih =>
      rw [names, List.mem_cons, not_or] at unknown
      exact ih unknown.2 mem

/-- Members with other names leave the slot of a field as it is. -/
theorem readMembers_tail {α : Type} {field : Field α} {fields : Fields row}
    {ms : List (Option String × Draft)} (others : ∀ m ∈ ms, m.1 ≠ some field.name)
    (slot : Option α) {slots slots' : Slots row}
    (read : fields.readMembers source room ms slots = .ok slots') :
    (Fields.cons field fields).readMembers source room ms (slot, slots) = .ok (slot, slots') := by
  induction ms generalizing slots with
  | nil =>
      cases read
      rfl
  | cons m ms ih =>
      obtain ⟨mid, ⟨name, eq, admitted⟩, rest⟩ := readMembers_cons_iff.1 read
      have other : name ≠ field.name := fun same => others m List.mem_cons_self (same ▸ eq)
      refine readMembers_cons_iff.2 ⟨(slot, mid), ⟨name, eq, ?_⟩,
        ih (fun m mem => others m (List.mem_cons_of_mem _ mem)) rest⟩
      rcases admitted with accepted | ⟨unknown, whole, rfl⟩
      · exact .inl (.inr ⟨other, rfl, accepted⟩)
      · refine .inr ⟨?_, whole, rfl⟩
        rw [names, List.mem_cons, not_or]
        exact ⟨other, unknown⟩

theorem readMembers_of_taken {fields : Fields row} {values : Row row}
    {ms : List (Option String × Draft)} (taken : Taken source room fields values ms)
    (distinct : fields.names.Nodup) :
    ∃ slots, fields.readMembers source room ms (noSlots row) = .ok slots ∧
      fields.complete slots = .ok values := by
  induction taken with
  | nil => exact ⟨(), rfl, rfl⟩
  | @keep α row field fields v values draft ms read taken ih =>
      obtain ⟨fresh, distinct⟩ := List.nodup_cons.1 distinct
      obtain ⟨slots, members, complete_⟩ := ih distinct
      refine ⟨(some v, slots), readMembers_cons_iff.2 ⟨(some v, noSlots row), ?_, ?_⟩, ?_⟩
      · exact ⟨field.name, rfl, .inl (.inl ⟨rfl, rfl, map_eq_ok_iff.2 ⟨v, read, rfl⟩, rfl⟩)⟩
      · exact readMembers_tail (fun m mem => taken.ne_of_not_mem_names fresh mem) (some v) members
      · exact map_eq_ok_iff.2 ⟨values, complete_, rfl⟩
  | leave absent taken ih =>
      obtain ⟨fresh, distinct⟩ := List.nodup_cons.1 distinct
      obtain ⟨slots, members, complete_⟩ := ih distinct
      refine ⟨(none, slots),
        readMembers_tail (fun m mem => taken.ne_of_not_mem_names fresh mem) none members, ?_⟩
      rw [complete, absent]
      exact map_eq_ok_iff.2 ⟨_, complete_, rfl⟩

/-- A member that the record does not have is passed over if it is whole. -/
theorem readMembers_append {fields : Fields row} {ms others : List (Option String × Draft)}
    (unknown : ∀ m ∈ others, (∃ name, m.1 = some name ∧ name ∉ fields.names) ∧
      m.2.isWhole = true)
    {slots slots' : Slots row} (read : fields.readMembers source room ms slots = .ok slots') :
    fields.readMembers source room (others ++ ms) slots = .ok slots' := by
  induction others with
  | nil => exact read
  | cons m others ih =>
      obtain ⟨⟨name, eq, new⟩, whole⟩ := unknown m List.mem_cons_self
      exact readMembers_cons_iff.2 ⟨slots, ⟨name, eq, .inr ⟨new, whole, rfl⟩⟩,
        ih fun m mem => unknown m (List.mem_cons_of_mem _ mem)⟩

/-- An object is read as the row of its fields, in whatever order they stand in it and whatever
else it has. -/
theorem readObject_of_taken {fields : Fields row} {values : Row row}
    {ms known others : List (Option String × Draft)} (distinct : fields.names.Nodup)
    (taken : Taken source room fields values known)
    (unknown : ∀ m ∈ others, (∃ name, m.1 = some name ∧ name ∉ fields.names) ∧
      m.2.isWhole = true)
    (perm : ms.Perm (known ++ others)) : fields.readObject source room ms = .ok values := by
  obtain ⟨slots, members, complete_⟩ := readMembers_of_taken taken distinct
  exact readObject_perm (List.perm_append_comm.trans perm.symm)
    (bind_eq_ok_iff.2 ⟨slots, readMembers_append unknown members, complete_⟩)

/-! ## Members that are refused -/

/-- What is read of a member whose field the record has is a value of this field. -/
theorem Accepts.read {α : Type} {field : Field α} {draft : Draft} {fields : Fields row}
    {slots slots' : Slots row} (finds : fields.Finds field)
    (accepted : fields.Accepts source room field.name draft slots slots') :
    ∃ v, field.codec.read source room draft = .ok v := by
  induction finds with
  | head =>
      obtain ⟨slot, slots⟩ := slots
      obtain ⟨slot', slots'⟩ := slots'
      rcases accepted with ⟨-, -, filled, -⟩ | ⟨other, -⟩
      · obtain ⟨v, read, -⟩ := map_eq_ok_iff.1 filled
        exact ⟨v, read⟩
      · exact absurd rfl other
  | tail other finds ih =>
      obtain ⟨slot, slots⟩ := slots
      obtain ⟨slot', slots'⟩ := slots'
      rcases accepted with ⟨same, -⟩ | ⟨-, -, accepted⟩
      · exact absurd same other
      · exact ih accepted

theorem Finds.mem_names {α : Type} {field : Field α} {fields : Fields row}
    (finds : fields.Finds field) : field.name ∈ fields.names := by
  induction finds with
  | head => exact List.mem_cons_self
  | tail other finds ih => exact List.mem_cons_of_mem _ ih

theorem Admits.accepts {name : String} {draft : Draft} {fields : Fields row}
    {slots slots' : Slots row}
    (admitted : fields.Admits source room (some name, draft) slots slots')
    (known : name ∈ fields.names) : fields.Accepts source room name draft slots slots' := by
  obtain ⟨name', eq, accepted | ⟨unknown, -⟩⟩ := admitted
  · cases eq
    exact accepted
  · cases eq
    exact absurd known unknown

/-- A member of a field is read as a value of it wherever the object is read. -/
theorem read_of_readMembers {α : Type} {field : Field α} {fields : Fields row} {draft : Draft}
    {ms : List (Option String × Draft)} (finds : fields.Finds field)
    (mem : (some field.name, draft) ∈ ms) {slots slots' : Slots row}
    (read : fields.readMembers source room ms slots = .ok slots') :
    ∃ v, field.codec.read source room draft = .ok v := by
  obtain ⟨before, after, rfl⟩ := List.append_of_mem mem
  obtain ⟨mid, admitted, -⟩ := readMembers_cons_iff.1 (readMembers_perm List.perm_middle read)
  exact (admitted.accepts finds.mem_names).read finds

/-- A member of a name that stands in an object may be brought to the front. -/
theorem exists_perm_cons_of_count_pos {name : String} {ms : List (Option String × Draft)}
    (stands : 0 < (ms.map Prod.fst).count (some name)) :
    ∃ draft rest, ms.Perm ((some name, draft) :: rest) ∧
      (ms.map Prod.fst).count (some name) = (rest.map Prod.fst).count (some name) + 1 := by
  obtain ⟨⟨_, draft⟩, mem, rfl⟩ := List.mem_map.1 (List.count_pos_iff.1 stands)
  obtain ⟨before, after, rfl⟩ := List.append_of_mem mem
  refine ⟨draft, before ++ after, List.perm_middle, ?_⟩
  have perm : ((before ++ (some name, draft) :: after).map Prod.fst).Perm
      (((some name, draft) :: (before ++ after)).map Prod.fst) := List.perm_middle.map _
  rw [perm.count_eq, List.map_cons, List.count_cons_self]

/-- A field does not stand twice in an object that is read. -/
theorem count_le_one_of_readMembers {name : String} {fields : Fields row}
    {ms : List (Option String × Draft)} (known : name ∈ fields.names) {slots slots' : Slots row}
    (read : fields.readMembers source room ms slots = .ok slots') :
    (ms.map Prod.fst).count (some name) ≤ 1 := by
  -- two members of one name could be read one right after the other
  refine Nat.le_of_not_lt fun twice => ?_
  obtain ⟨draft, rest, perm, count⟩ := exists_perm_cons_of_count_pos (Nat.zero_lt_of_lt twice)
  have again : 0 < (rest.map Prod.fst).count (some name) := by omega
  obtain ⟨draft', rest', perm', -⟩ := exists_perm_cons_of_count_pos again
  obtain ⟨mid, first, read⟩ := readMembers_cons_iff.1
    (readMembers_perm (perm.trans (perm'.cons _)) read)
  obtain ⟨mid', second, -⟩ := readMembers_cons_iff.1 read
  exact (first.accepts known).not_again (second.accepts known)

end

end Fields
end BuildPipeline.Wire
