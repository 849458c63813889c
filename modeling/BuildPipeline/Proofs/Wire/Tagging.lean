import BuildPipeline.Proofs.Wire.Refusal

/-!
Values that name their variant by a tag. The object is taken into a buffer first; what the buffer
holds in the end is the object without its tag, in the same order (`Tagged.buffer_none_eq_ok_iff`),
and the fields are then read from it as from any other object. So every form of such a value is read
as the value (`Tagged.Form.read`) where all of it is sound, and what has a field twice, or the tag,
is refused (`Tagged.Doubled.refused`).
-/

namespace BuildPipeline.Wire.Tagged

open Json (Draft draft elementDrafts memberDrafts elementDepth memberDepth inRange)

variable {α : Type} {variants : List (Variant α)} {room : Nat}

/-- A member that the buffer takes in: it has a name, which is not the tag, and is sound. -/
def Buffered (room : Nat) (m : Option String × Draft) : Prop :=
  (∃ name, m.1 = some name ∧ name ≠ tag) ∧ m.2.isSound room = true

theorem Buffered.ne_tag {m : Option String × Draft} (buffered : Buffered room m) :
    m.1 ≠ some tag := by
  obtain ⟨⟨name, eq, other⟩, -⟩ := buffered
  exact fun same => other (Option.some.inj (eq.symm.trans same))

theorem buffer_cons_of_ne_tag {m : Option String × Draft} (other : m.1 ≠ some tag)
    {ms content : List (Option String × Draft)} {found : Option (Variant α)}
    {result : Variant α × List (Option String × Draft)} :
    buffer variants room (m :: ms) found content = .ok result ↔
      Buffered room m ∧ buffer variants room ms found (m :: content) = .ok result := by
  obtain ⟨_ | name, draft⟩ := m
  · refine ⟨nofun, ?_⟩
    rintro ⟨⟨⟨name, eq, -⟩, -⟩, -⟩
    cases eq
  · have other : name ≠ tag := fun same => other (congrArg some same)
    rw [buffer, if_neg other]
    split
    · rename_i sound
      exact ⟨fun rest => ⟨⟨⟨name, rfl, other⟩, sound⟩, rest⟩, fun both => both.2⟩
    · rename_i unsound
      exact ⟨nofun, fun both => absurd both.1.2 unsound⟩

/-- Behind the tag all members go into the buffer. -/
theorem buffer_some_eq_ok_iff {ms content result : List (Option String × Draft)}
    {found v : Variant α} :
    buffer variants room ms (some found) content = .ok (v, result) ↔
      v = found ∧ result = content.reverse ++ ms ∧ ∀ m ∈ ms, Buffered room m := by
  induction ms generalizing content with
  | nil =>
      rw [buffer]
      constructor
      · intro eq
        cases eq
        simp
      · rintro ⟨rfl, rfl, -⟩
        simp
  | cons m ms ih =>
      rw [List.forall_mem_cons]
      by_cases again : m.1 = some tag
      · obtain ⟨name, draft⟩ := m
        obtain rfl : name = some tag := again
        exact ⟨nofun, fun ⟨_, _, buffered, _⟩ => absurd rfl buffered.ne_tag⟩
      · rw [buffer_cons_of_ne_tag again, ih, List.reverse_cons, List.append_assoc,
          List.singleton_append]
        exact ⟨fun ⟨first, same, shape, rest⟩ => ⟨same, shape, first, rest⟩,
          fun ⟨same, shape, first, rest⟩ => ⟨first, same, shape, rest⟩⟩

theorem buffer_tag {ms content result : List (Option String × Draft)} {x : Draft}
    {v : Variant α} :
    buffer variants room ((some tag, x) :: ms) none content = .ok (v, result) ↔
      variant variants x = .ok v ∧ result = content.reverse ++ ms ∧ ∀ m ∈ ms, Buffered room m := by
  rw [buffer, if_pos rfl, if_neg (by simp), bind_eq_ok_iff]
  constructor
  · rintro ⟨found, lookup, rest⟩
    obtain ⟨rfl, shape, all⟩ := buffer_some_eq_ok_iff.1 rest
    exact ⟨lookup, shape, all⟩
  · rintro ⟨lookup, shape, all⟩
    exact ⟨v, lookup, buffer_some_eq_ok_iff.2 ⟨rfl, shape, all⟩⟩

/-- The buffer holds all members but the tag, which stands once. -/
theorem buffer_none_eq_ok_iff {ms content result : List (Option String × Draft)} {v : Variant α} :
    buffer variants room ms none content = .ok (v, result) ↔
      ∃ before x after, ms = before ++ (some tag, x) :: after ∧ variant variants x = .ok v ∧
        result = content.reverse ++ (before ++ after) ∧ ∀ m ∈ before ++ after, Buffered room m := by
  induction ms generalizing content with
  | nil =>
      refine ⟨nofun, ?_⟩
      rintro ⟨before, x, after, shape, -⟩
      simp at shape
  | cons m ms ih =>
      by_cases same : m.1 = some tag
      · obtain ⟨name, draft⟩ := m
        obtain rfl : name = some tag := same
        rw [buffer_tag]
        constructor
        · rintro ⟨lookup, shape, all⟩
          exact ⟨[], draft, ms, rfl, lookup, shape, all⟩
        · rintro ⟨_ | ⟨m, before⟩, x, after, shape, lookup, result, all⟩
          · cases shape
            exact ⟨lookup, result, all⟩
          · obtain ⟨rfl, -⟩ := List.cons.inj shape
            exact absurd rfl (all _ List.mem_cons_self).ne_tag
      · rw [buffer_cons_of_ne_tag same, ih]
        constructor
        · rintro ⟨first, before, x, after, rfl, lookup, rfl, all⟩
          exact ⟨m :: before, x, after, rfl, lookup, by simp, List.forall_mem_cons.2 ⟨first, all⟩⟩
        · rintro ⟨_ | ⟨m, before⟩, x, after, shape, lookup, rfl, all⟩
          · cases shape
            exact absurd rfl same
          · obtain ⟨rfl, rfl⟩ := List.cons.inj shape
            obtain ⟨first, all⟩ := List.forall_mem_cons.1 all
            exact ⟨first, before, x, after, rfl, lookup, by simp, all⟩

/-- The buffer takes in an object that has the tag once. -/
theorem buffer_of_perm {ms rest : List (Option String × Draft)} {x : Draft} {found : Variant α}
    (perm : ms.Perm ((some tag, x) :: rest)) (all : ∀ m ∈ rest, Buffered room m)
    (lookup : variant variants x = .ok found) :
    ∃ content, buffer variants room ms none [] = .ok (found, content) ∧ content.Perm rest := by
  obtain ⟨before, after, rfl⟩ := List.append_of_mem (perm.mem_iff.2 List.mem_cons_self)
  have rest_ : (before ++ after).Perm rest := (List.perm_middle.symm.trans perm).cons_inv
  exact ⟨before ++ after, buffer_none_eq_ok_iff.2 ⟨before, x, after, rfl, lookup, rfl,
    fun m mem => all m (rest_.mem_iff.1 mem)⟩, rest_⟩

/-- A member with the name of the tag is the tag of what the buffer has taken in. -/
theorem perm_of_buffer {ms rest content : List (Option String × Draft)} {x : Draft}
    {found : Variant α} (buffered : buffer variants room ms none [] = .ok (found, content))
    (perm : ms.Perm ((some tag, x) :: rest)) :
    variant variants x = .ok found ∧ content.Perm rest ∧ ∀ m ∈ rest, Buffered room m := by
  obtain ⟨before, y, after, rfl, lookup, rfl, all⟩ := buffer_none_eq_ok_iff.1 buffered
  have same : x = y := by
    have mem : (some tag, x) ∈ before ++ (some tag, y) :: after :=
      perm.mem_iff.2 List.mem_cons_self
    rcases List.mem_cons.1 (List.perm_middle.mem_iff.1 mem) with eq | mem
    · exact (Prod.mk.inj eq).2
    · exact absurd rfl (all _ mem).ne_tag
  subst same
  have rest_ : (before ++ after).Perm rest := (List.perm_middle.symm.trans perm).cons_inv
  exact ⟨lookup, rest_, fun m mem => all m (rest_.mem_iff.2 mem)⟩

/-! ## Reading -/

theorem read_object_eq_ok_iff {source : Source} {ms : List (Option String × Draft)} {v : α} :
    read variants source (room + 1) (.object ms) = .ok v ↔ ∃ found content,
      buffer variants room ms none [] = .ok (found, content) ∧
        found.readObject room content = .ok v :=
  bind_eq_ok_iff.trans Prod.exists

theorem read_array_eq_ok_iff {source : Source} {x : Draft} {ds : List Draft} {v : α} :
    read variants source (room + 1) (.array (x :: ds)) = .ok v ↔ ∃ found,
      variant variants x = .ok found ∧ (∀ d ∈ ds, d.isSound room = true) ∧
        found.readArray room ds = .ok v := by
  refine bind_eq_ok_iff.trans (exists_congr fun found => and_congr_right fun _ => ?_)
  rw [← List.all_eq_true]
  split
  · rename_i sound
    exact (and_iff_right sound).symm
  · rename_i unsound
    exact ⟨nofun, fun both => absurd both.1 unsound⟩

theorem variant_text {row : List Type} {name : String} {fields : Fields row} {ofRow : Row row → α}
    (distinct : (variants.map Variant.name).Nodup) (mem : .of name fields ofRow ∈ variants) :
    variant variants (Json.text name).draft = .ok (.of name fields ofRow) :=
  lookup_name distinct mem

theorem buffered_memberDrafts {ms : List (String × Json)} (others : ∀ m ∈ ms, m.1 ≠ tag)
    (shallow : memberDepth ms ≤ room) (range : ∀ n ∈ Json.memberNumbers ms, inRange n) :
    ∀ m ∈ memberDrafts ms, Buffered room m := by
  rw [Json.memberDrafts_eq_map, List.forall_mem_map]
  intro m mem
  exact ⟨⟨m.1, rfl, others m mem⟩, Json.isSound_draft (Json.memberDepth_le_iff.1 shallow m mem)
    fun n number => range n (Json.mem_memberNumbers.2 ⟨m, mem, number⟩)⟩

/-- A form of a value is read as the value, if it does not nest too deep and its numbers are in
range. -/
theorem Form.read {v : α} {j : Json} (form : Form variants v j)
    (distinct : (variants.map Variant.name).Nodup) (source : Source) (shallow : j.depth ≤ room)
    (range : ∀ n ∈ j.numbers, inRange n) : Tagged.read variants source room j.draft = .ok v := by
  obtain _ | room := room
  · cases form <;> cases shallow
  · cases form with
    | @object row name fields ofRow values ms rest mem object others perm =>
        have inside : ∀ m ∈ rest, m ∈ ms := fun m member =>
          perm.mem_iff.2 (List.mem_cons_of_mem _ member)
        have depth : memberDepth rest ≤ room := Json.memberDepth_le_iff.2 fun m member =>
          Json.depth_object_le_iff.1 shallow m (inside m member)
        have buffered := buffered_memberDrafts others depth fun n number =>
          have ⟨m, member, number⟩ := Json.mem_memberNumbers.1 number
          range n (Json.mem_memberNumbers.2 ⟨m, inside m member, number⟩)
        obtain ⟨content, taken, order⟩ :=
          buffer_of_perm (memberDrafts_perm perm) buffered (variant_text distinct mem)
        refine read_object_eq_ok_iff.2 ⟨_, content, taken, ?_⟩
        exact map_eq_ok_iff.2
          ⟨values, Fields.readObject_perm order.symm (object.read .buffered depth), rfl⟩
    | @array row name fields ofRow values js mem array =>
        have depth : elementDepth js ≤ room :=
          (Nat.max_le.1 (Nat.le_of_succ_le_succ shallow)).2
        refine read_array_eq_ok_iff.2 ⟨_, variant_text distinct mem, ?_,
          map_eq_ok_iff.2 ⟨values, array.read .buffered depth, rfl⟩⟩
        rw [Json.elementDrafts_eq_map, List.forall_mem_map]
        intro x member
        exact Json.isSound_draft (Json.elementDepth_le_iff.1 depth x member) fun n number =>
          range n (Json.mem_elementNumbers.2 ⟨x, List.mem_cons_of_mem _ member, number⟩)

/-- What holds the tag or a field twice is not read. -/
theorem Doubled.refused {j : Json} (doubled : Doubled variants j)
    (distinct : (variants.map Variant.name).Nodup) {source : Source} {v : α} :
    Tagged.read variants source room j.draft ≠ .ok v := by
  intro read
  obtain _ | room := room
  · cases doubled <;> cases read
  · cases doubled with
    | @tag ms twice =>
        obtain ⟨found, content, buffered, -⟩ := read_object_eq_ok_iff.1 read
        obtain ⟨⟨name, x⟩, mem, eq⟩ := List.mem_map.1
          (List.count_pos_iff.1 (Nat.lt_of_succ_lt twice))
        obtain rfl : name = Tagged.tag := eq
        obtain ⟨before, after, rfl⟩ := List.append_of_mem mem
        have perm : (before ++ (Tagged.tag, x) :: after).Perm
            ((Tagged.tag, x) :: (before ++ after)) :=
          List.perm_middle
        obtain ⟨-, -, all⟩ := perm_of_buffer buffered (memberDrafts_perm perm)
        -- one tag has been taken out, so the other one is among the rest
        rw [(perm.map Prod.fst).count_eq, List.map_cons, List.count_cons_self,
          Nat.lt_add_left_iff_pos, List.count_pos_iff] at twice
        obtain ⟨⟨name, y⟩, mem, eq⟩ := List.mem_map.1 twice
        obtain rfl : name = Tagged.tag := eq
        exact absurd rfl (all _ (Json.draft_mem_memberDrafts mem)).ne_tag
    | @object row name fields ofRow ms rest mem perm doubled =>
        obtain ⟨found, content, buffered, read⟩ := read_object_eq_ok_iff.1 read
        obtain ⟨lookup, order, -⟩ := perm_of_buffer buffered (memberDrafts_perm perm)
        cases lookup.symm.trans (variant_text distinct mem)
        obtain ⟨values, read, -⟩ := map_eq_ok_iff.1 read
        exact doubled.refused (Fields.readObject_perm order read)
    | @array row name fields ofRow js mem doubled =>
        obtain ⟨found, lookup, -, read⟩ := read_array_eq_ok_iff.1 read
        cases lookup.symm.trans (variant_text distinct mem)
        obtain ⟨values, read, -⟩ := map_eq_ok_iff.1 read
        exact doubled.refused read

end BuildPipeline.Wire.Tagged
