import BuildPipeline.Proofs.Wire.Writing

/-!
What was read can be written, and the text that comes of it is one that can be read: it holds a form
of the value, nests no deeper than the text that was read might, and has numbers of 64 bits only
(`Codec.Rereads`). A field that was missing is written with the value that it has then, which may
nest where the text did not.
-/

namespace BuildPipeline

namespace Json

/-- The value nests at most `room` levels, and its numbers have 64 bits. -/
def Fits (j : Json) (room : Nat) : Prop :=
  j.depth ≤ room ∧ j.InWords

theorem fits_of_flat {j : Json} (flat : j.depth = 0) (words : j.InWords) (room : Nat) :
    j.Fits room :=
  ⟨flat ▸ Nat.zero_le room, words⟩

theorem fits_text (s : String) (room : Nat) : (text s).Fits room :=
  ⟨Nat.zero_le room, nofun⟩

theorem fits_number {n : Nat} (small : n ≤ Text.Decimal.wordLimit) (room : Nat) :
    (number n).Fits room :=
  ⟨Nat.zero_le room, fun _ mem => List.mem_singleton.1 mem ▸ small⟩

theorem fits_array {xs : List Json} {room : Nat} (fits : ∀ x ∈ xs, x.Fits room) :
    (array xs).Fits (room + 1) := by
  refine ⟨depth_array_le_iff.2 fun x mem => (fits x mem).1, fun n number => ?_⟩
  obtain ⟨x, mem, number⟩ := mem_elementNumbers.1 number
  exact (fits x mem).2 n number

theorem fits_object {ms : List (String × Json)} {room : Nat} (fits : ∀ m ∈ ms, m.2.Fits room) :
    (object ms).Fits (room + 1) := by
  refine ⟨depth_object_le_iff.2 fun m mem => (fits m mem).1, fun n number => ?_⟩
  obtain ⟨m, mem, number⟩ := mem_memberNumbers.1 number
  exact (fits m mem).2 n number

end Json

namespace Wire

open Json (Draft)

/-- What the codec writes for a value that it read is a form of this value and fits where it was
read. -/
def Codec.Rereads {α : Type} (codec : Codec α) (room : Nat) : Prop :=
  ∀ (source : Source) (draft : Draft) (v : α), codec.read source room draft = .ok v →
    codec.Form v (codec.write v) ∧ (codec.write v).Fits room

/-- The same of a field: of the values that it reads and of those that it has when it is missing. A
field is not written only where it has its value anyway. -/
def Field.Rereads {α : Type} (field : Field α) (room : Nat) : Prop :=
  field.codec.Rereads room ∧
    (∀ v, field.absent = some v ∨ field.short = some v → field.omits v = false →
      field.codec.Form v (field.codec.write v) ∧ (field.codec.write v).Fits room) ∧
    ∀ v, field.omits v = true → field.absent = some v

/-- The same of every field of a row. -/
def Fields.Rereads {row : List Type} (fields : Fields row) (room : Nat) : Prop :=
  match fields with
  | .nil => True
  | .cons field fields => field.Rereads room ∧ fields.Rereads room

/-! ## Where the values of a row come from -/

namespace Fields

variable {row : List Type} {source : Source} {room : Nat}

/-- Every value of the row was read by its field, or is one that the field has when it is
missing. -/
def Came (source : Source) (room : Nat) : {row : List Type} → Fields row → Row row → Prop
  | _, .nil, _ => True
  | _, .cons field fields, (v, values) =>
    ((∃ draft, field.codec.read source room draft = .ok v) ∨ field.absent = some v ∨
      field.short = some v) ∧ Came source room fields values

/-- Every slot that is filled holds a value that its field read. -/
def Filled (source : Source) (room : Nat) : {row : List Type} → Fields row → Slots row → Prop
  | _, .nil, _ => True
  | _, .cons field fields, (slot, slots) =>
    (∀ v, slot = some v → ∃ draft, field.codec.read source room draft = .ok v) ∧
      Filled source room fields slots

theorem filled_noSlots (fields : Fields row) : fields.Filled source room (noSlots row) := by
  induction fields with
  | nil => trivial
  | cons field fields ih => exact ⟨nofun, ih⟩

theorem Accepts.filled {name : String} {draft : Draft} {fields : Fields row}
    {slots slots' : Slots row} (accepted : fields.Accepts source room name draft slots slots')
    (filled : fields.Filled source room slots) : fields.Filled source room slots' := by
  induction fields with
  | nil => trivial
  | cons field fields ih =>
      obtain ⟨slot, slots⟩ := slots
      obtain ⟨slot', slots'⟩ := slots'
      obtain ⟨first, others⟩ := filled
      rcases accepted with ⟨-, -, into, rfl⟩ | ⟨-, rfl, accepted⟩
      · obtain ⟨v, read, rfl⟩ := map_eq_ok_iff.1 into
        exact ⟨fun w eq => ⟨draft, Option.some.inj eq ▸ read⟩, others⟩
      · exact ⟨first, ih accepted others⟩

theorem filled_of_readMembers {fields : Fields row} {ms : List (Option String × Draft)}
    {slots slots' : Slots row} (read : fields.readMembers source room ms slots = .ok slots')
    (filled : fields.Filled source room slots) : fields.Filled source room slots' := by
  induction ms generalizing slots with
  | nil =>
      cases read
      exact filled
  | cons m ms ih =>
      obtain ⟨mid, ⟨name, -, accepted | ⟨-, -, rfl⟩⟩, rest⟩ := readMembers_cons_iff.1 read
      · exact ih rest (accepted.filled filled)
      · exact ih rest filled

theorem came_of_complete {fields : Fields row} {slots : Slots row} {values : Row row}
    (filled : fields.Filled source room slots) (completed : fields.complete slots = .ok values) :
    fields.Came source room values := by
  induction fields with
  | nil => trivial
  | cons field fields ih =>
      obtain ⟨slot, slots⟩ := slots
      obtain ⟨first, others⟩ := filled
      rw [complete] at completed
      split at completed
      · rename_i v value
        obtain ⟨values, rest, rfl⟩ := map_eq_ok_iff.1 completed
        refine ⟨?_, ih others rest⟩
        cases slot with
        | none => exact .inr (.inl value)
        | some w => exact .inl (first v value)
      · cases completed

theorem came_of_readObject {fields : Fields row} {ms : List (Option String × Draft)}
    {values : Row row} (read : fields.readObject source room ms = .ok values) :
    fields.Came source room values := by
  obtain ⟨slots, members, completed⟩ := bind_eq_ok_iff.1 read
  exact came_of_complete (filled_of_readMembers members (filled_noSlots fields)) completed

theorem came_of_readArray {fields : Fields row} {ds : List Draft} {values : Row row}
    (read : fields.readArray source room ds = .ok values) : fields.Came source room values := by
  induction fields generalizing ds with
  | nil => trivial
  | cons field fields ih =>
      cases ds with
      | nil =>
          rw [readArray] at read
          split at read
          · rename_i v short
            obtain ⟨values, rest, rfl⟩ := map_eq_ok_iff.1 read
            exact ⟨.inr (.inr short), ih rest⟩
          · cases read
      | cons d ds =>
          obtain ⟨v, first, rest⟩ := bind_eq_ok_iff.1 read
          obtain ⟨values, others, rfl⟩ := map_eq_ok_iff.1 rest
          exact ⟨.inl ⟨d, first⟩, ih others⟩

/-- The members that are written for such a row are a form of it. -/
theorem Came.members {fields : Fields row} {values : Row row}
    (came : fields.Came source room values) (rereads : fields.Rereads room) :
    fields.Members values (fields.members values) ∧
      ∀ m ∈ fields.members values, m.2.Fits room := by
  induction fields with
  | nil => exact ⟨.nil, nofun⟩
  | cons field fields ih =>
      obtain ⟨v, values⟩ := values
      obtain ⟨value, came⟩ := came
      obtain ⟨⟨read, missing, omitted⟩, rereads⟩ := rereads
      obtain ⟨others, fits⟩ := ih came rereads
      rw [Fields.members]
      split
      · rename_i omits
        exact ⟨.leave (omitted v omits) others, fits⟩
      · rename_i kept
        have form : field.codec.Form v (field.codec.write v) ∧ (field.codec.write v).Fits room := by
          rcases value with ⟨draft, value⟩ | value
          · exact read source draft v value
          · exact missing v value (Bool.not_eq_true _ ▸ kept)
        exact ⟨.keep form.1 others, List.forall_mem_cons.2 ⟨form.2, fits⟩⟩

theorem Came.object {fields : Fields row} {values : Row row}
    (came : fields.Came source room values) (rereads : fields.Rereads room)
    (distinct : fields.names.Nodup) : fields.Object values (fields.members values) :=
  .mk distinct (came.members rereads).1 (fun m (mem : m ∈ []) => nomatch mem)
    (List.append_nil _ ▸ .refl _)

end Fields

/-! ## Codecs -/

namespace Codec

variable {α : Type} {codec : Codec α} {room : Nat}

theorem Writes.rereads (writes : codec.Writes id) (words : ∀ v, (codec.write v).InWords)
    (flat : ∀ v, (codec.write v).depth = 0) : codec.Rereads room :=
  fun _ _ v _ => ⟨writes v (words v), Json.fits_of_flat (flat v) (words v) room⟩

theorem Rereads.optional (rereads : codec.Rereads room) (solid : ∀ v, codec.write v ≠ .null) :
    codec.optional.Rereads room := by
  intro source draft v read
  have some_ : ∀ {w}, (codec.read source room draft).map some = .ok w →
      codec.optional.Form w (codec.optional.write w) ∧ (codec.optional.write w).Fits room := by
    intro w found
    obtain ⟨v, read, rfl⟩ := map_eq_ok_iff.1 found
    obtain ⟨form, fits⟩ := rereads source draft v read
    exact ⟨.some form (solid v), fits⟩
  cases draft with
  | null =>
      cases read
      exact ⟨.none, Nat.zero_le _, nofun⟩
  | _ => exact some_ read

theorem forms_of_mapM (rereads : codec.Rereads room) {source : Source} {ds : List Draft}
    {vs : List α} (read : ds.mapM (codec.read source room) = .ok vs) :
    codec.Forms vs (vs.map codec.write) ∧ ∀ j ∈ vs.map codec.write, j.Fits room := by
  induction ds generalizing vs with
  | nil =>
      cases read
      exact ⟨.nil, nofun⟩
  | cons d ds ih =>
      rw [List.mapM_cons] at read
      obtain ⟨v, first, rest⟩ := bind_eq_ok_iff.1 read
      obtain ⟨vs, others, own⟩ := bind_eq_ok_iff.1 rest
      cases own
      obtain ⟨form, fits⟩ := rereads source d v first
      obtain ⟨forms, others⟩ := ih others
      exact ⟨.cons form forms, List.forall_mem_cons.2 ⟨fits, others⟩⟩

theorem Rereads.list (rereads : ∀ below, room = below + 1 → codec.Rereads below) :
    (Codec.list codec).Rereads room := by
  intro source draft vs read
  cases room with
  | zero => cases draft <;> cases read
  | succ below =>
      cases draft with
      | array ds =>
          obtain ⟨forms, fits⟩ := forms_of_mapM (rereads below rfl) read
          exact ⟨.list forms, Json.fits_array fits⟩
      | _ => cases read

theorem Rereads.record {row : List Type} {fields : Fields row} {ofRow : Row row → α}
    {toRow : α → Row row} (distinct : fields.names.Nodup)
    (rereads : ∀ below, room = below + 1 → fields.Rereads below)
    (back : ∀ values, toRow (ofRow values) = values) :
    (Codec.record fields ofRow toRow).Rereads room := by
  intro source draft v read
  cases room with
  | zero => cases draft <;> cases read
  | succ below =>
      have written : ∀ {values}, fields.Came source below values → ofRow values = v →
          (Codec.record fields ofRow toRow).Form v ((Codec.record fields ofRow toRow).write v) ∧
            ((Codec.record fields ofRow toRow).write v).Fits (below + 1) := by
        rintro values came rfl
        have members : fields.members (toRow (ofRow values)) = fields.members values := by rw [back]
        change Codec.Form _ _ (Json.object (fields.members (toRow (ofRow values)))) ∧
          (Json.object (fields.members (toRow (ofRow values)))).Fits _
        rw [members]
        exact ⟨.object (came.object (rereads below rfl) distinct) rfl,
          Json.fits_object (came.members (rereads below rfl)).2⟩
      cases draft with
      | object ms =>
          obtain ⟨values, read, own⟩ := map_eq_ok_iff.1 read
          exact written (Fields.came_of_readObject read) own
      | array ds =>
          obtain ⟨values, read, own⟩ := map_eq_ok_iff.1 read
          exact written (Fields.came_of_readArray read) own
      | _ => cases read

end Codec

namespace Field.Rereads

variable {α : Type} {codec : Codec α} {room : Nat}

theorem required (name : String) (rereads : codec.Rereads room) :
    (Field.required name codec).Rereads room :=
  ⟨rereads, fun _ missing => by rcases missing with absent | short <;> contradiction, nofun⟩

theorem defaulted (name : String) {value : α} (rereads : codec.Rereads room)
    (form : codec.Form value (codec.write value)) (fits : (codec.write value).Fits room) :
    (Field.defaulted name codec value).Rereads room := by
  refine ⟨rereads, fun v missing _ => ?_, nofun⟩
  obtain rfl : value = v := by rcases missing with some_ | some_ <;> exact Option.some.inj some_
  exact ⟨form, fits⟩

theorem optional (name : String) (rereads : codec.Rereads room)
    (solid : ∀ v, codec.write v ≠ .null) : (Field.optional name codec).Rereads room := by
  refine ⟨rereads.optional solid, fun v missing written => ?_, fun v omitted => ?_⟩
  · obtain rfl : none = v := by rcases missing with none_ | none_ <;> exact Option.some.inj none_
    cases written
  · exact congrArg some (Option.isNone_iff_eq_none.1 omitted).symm

end Field.Rereads

/-! ## Values with one form -/

section

variable {room : Nat}

theorem rereads_text : Codec.text.Rereads room :=
  writes_text.rereads (fun _ => nofun) fun _ => rfl

theorem le_of_read_natural {max n : Nat} {source : Source} {draft : Draft}
    (read : (Codec.natural max).read source room draft = .ok n) : n ≤ max := by
  cases draft with
  | number m =>
      cases m with
      | natural m =>
          change (if m ≤ max then Except.ok m else Except.error Fault.malformed) = _ at read
          split at read
          · rename_i small
            cases read
            exact small
          · cases read
      | scaled significand exponent => cases read
  | _ => cases read

theorem rereads_word64 : Codec.word64.Rereads room :=
  fun _ _ _ read => ⟨.natural (le_of_read_natural read) (Nat.le_refl _),
    Json.fits_number (le_of_read_natural read) _⟩

theorem inWords_word16 (n : UInt16) : (Codec.word16.write n).InWords := by
  intro m mem
  rw [List.mem_singleton.1 mem]
  exact Nat.le_trans (Nat.le_of_lt n.toNat_lt) (by decide)

theorem rereads_word16 : Codec.word16.Rereads room :=
  writes_word16.rereads inWords_word16 fun _ => rfl

theorem rereads_buildId : buildId.Rereads room :=
  writes_buildId.rereads (fun _ => nofun) fun _ => rfl

theorem rereads_token : token.Rereads room := by
  intro source draft t read
  obtain ⟨n, number, rfl⟩ := map_eq_ok_iff.1 read
  obtain ⟨form, fits⟩ := rereads_word64 source draft n number
  exact ⟨.imap form rfl, fits⟩

theorem rereads_moment : moment.Rereads room :=
  writes_moment.rereads (fun _ => nofun) fun _ => rfl

theorem rereads_status : status.Rereads room :=
  writes_status.rereads (fun _ => nofun) fun _ => rfl

theorem rereads_capability : capability.Rereads room :=
  writes_capability.rereads (fun _ => nofun) fun _ => rfl

theorem rereads_eventKind : eventKind.Rereads room :=
  writes_eventKind.rereads (fun _ => nofun) fun _ => rfl

theorem rereads_repositoryKind : repositoryKind.Rereads room :=
  writes_repositoryKind.rereads (fun _ => nofun) fun _ => rfl

/-! ## Records -/

theorem rereads_optionalText (name : String) : (Field.optional name .text).Rereads room :=
  .optional name rereads_text fun _ => nofun

theorem rereads_optionalWord16 (name : String) : (Field.optional name .word16).Rereads room :=
  .optional name rereads_word16 fun _ => nofun

theorem rereads_phase : phase.Rereads room :=
  .record (by decide) (fun _ _ => ⟨.required _ rereads_text,
    .defaulted _ rereads_text (.text _) (Json.fits_text _ _),
    .defaulted _ rereads_word64 (.natural (Nat.zero_le _) (Nat.le_refl _))
      (Json.fits_number (Nat.zero_le _) _),
    .defaulted _ rereads_status (writes_status .parked nofun) (Json.fits_text _ _),
    rereads_optionalText _, rereads_optionalText _, rereads_optionalWord16 _,
    rereads_optionalText _, rereads_optionalText _, trivial⟩) fun _ => rfl

theorem rereads_phasePatch : phasePatch.Rereads room :=
  .record (by decide) (fun _ _ => ⟨.required _ rereads_word64, rereads_optionalText _,
    rereads_optionalText _, rereads_optionalWord16 _, trivial⟩) fun _ => rfl

theorem rereads_workspace : workspace.Rereads room :=
  .record (by decide) (fun _ _ => ⟨.required _ rereads_text, rereads_optionalText _,
    rereads_optionalText _, trivial⟩) fun _ => rfl

theorem rereads_repository (room : Nat) : repository.Rereads room := by
  induction room using Nat.strongRecOn with
  | ind room ih =>
      have rereads : repositoryRecord.Rereads room := by
        refine .record (by decide) (fun below eq => ?_) fun _ => rfl
        refine ⟨.defaulted _ rereads_repositoryKind (writes_repositoryKind .none nofun)
          (Json.fits_text _ _), rereads_optionalText _, rereads_optionalText _,
          rereads_optionalText _,
          ⟨.list fun deeper eq' => ih deeper (by omega), fun v missing written => ?_,
            fun v omitted => congrArg some (List.isEmpty_iff.1 omitted).symm⟩, trivial⟩
        obtain rfl : [] = v := by rcases missing with some_ | some_ <;> exact Option.some.inj some_
        cases written
      intro source draft r read
      rw [read_repository] at read
      rw [write_repository]
      obtain ⟨form, fits⟩ := rereads source draft r read
      exact ⟨.repository form, fits⟩

theorem rereads_phases : (Codec.list phase).Rereads room :=
  .list fun _ _ => rereads_phase

/-- The workspace and the repository of a build are written where the text that was read may lack
them; it has to have had room for them. -/
theorem rereads_build (enough : 2 ≤ room) : build.Rereads room :=
  .record (by decide) (fun below eq => ⟨.required _ rereads_buildId, rereads_optionalText _,
    .defaulted _ rereads_status (writes_status .parked nofun) (Json.fits_text _ _),
    .defaulted _ rereads_phases (.list .nil) ⟨show 1 ≤ below by omega, nofun⟩,
    .defaulted _ rereads_workspace (writes_workspace {} nofun) ⟨show 1 ≤ below by omega, nofun⟩,
    .defaulted _ (rereads_repository below) (writes_repository {} nofun)
      ⟨show 1 ≤ below by omega, nofun⟩,
    rereads_optionalText _, .required _ rereads_moment,
    .optional _ rereads_moment fun _ => nofun, trivial⟩) fun _ => rfl

theorem rereads_command (enough : 3 ≤ room) : command.Rereads room :=
  .record (by decide) (fun below eq => ⟨.required _ rereads_capability, .required _ rereads_token,
    .required _ (rereads_build (by omega)), .optional _ rereads_phase fun _ => nofun,
    rereads_optionalText _, trivial⟩) fun _ => rfl

theorem rereads_event : event.Rereads room :=
  .record (by decide) (fun below eq => ⟨.required _ rereads_eventKind, .required _ rereads_buildId,
    .required _ rereads_token,
    .defaulted _ rereads_word16 (writes_word16 successCode (inWords_word16 _))
      (Json.fits_of_flat rfl (inWords_word16 _) _),
    rereads_optionalText _, .optional _ rereads_workspace fun _ => nofun,
    .optional _ (rereads_repository below) write_repository_ne_null,
    .optional _ (rereads_repository below) write_repository_ne_null,
    .optional _ rereads_phasePatch fun _ => nofun,
    .optional _ (.list fun _ _ => rereads_phases) fun _ => nofun, trivial⟩) fun _ => rfl

end

/-! ## Tagged values -/

/-- The variant has a name and fields like any record, and its values are written with them. -/
inductive Variant.Rereads {α : Type} (write : α → Json) (room : Nat) : Variant α → Prop where
  | of {row : List Type} {name : String} {fields : Fields row} {ofRow : Row row → α} :
    (Tagged.tag :: fields.names).Nodup → fields.Rereads room →
      (∀ values, write (ofRow values) = Tagged.write name fields values) →
      Variant.Rereads write room (.of name fields ofRow)

theorem mem_of_lookup {α : Type} {all : List α} {name : α → String} {key : String} {v : α}
    (found : Codec.lookup all name key = .ok v) : v ∈ all ∧ name v = key := by
  rw [Codec.lookup] at found
  split at found
  · rename_i found_
    cases found
    exact ⟨List.mem_of_find?_eq_some found_, by simpa using List.find?_some found_⟩
  · cases found

namespace Tagged

variable {α : Type} {variants : List (Variant α)} {write : α → Json} {room : Nat}

theorem mem_of_variant {x : Draft} {v : Variant α} (found : variant variants x = .ok v) :
    v ∈ variants := by
  unfold variant at found
  split at found
  · exact (mem_of_lookup found).1
  · cases found

/-- What is written for the values of a variant is a form of them, if they were read. -/
theorem form_of_came {row : List Type} {name : String} {fields : Fields row} {ofRow : Row row → α}
    {values : Row row} (mem : .of name fields ofRow ∈ variants)
    (distinct : (tag :: fields.names).Nodup) (rereads : fields.Rereads room)
    {source : Source} (came : fields.Came source room values) :
    Form variants (ofRow values) (Tagged.write name fields values) ∧
      (Tagged.write name fields values).Fits (room + 1) := by
  obtain ⟨fresh, distinct⟩ := List.nodup_cons.1 distinct
  refine ⟨.object mem (came.object rereads distinct) (fun m member eq => fresh ?_) (.refl _), ?_⟩
  · exact eq ▸ Fields.mem_names_of_mem_members member
  · exact Json.fits_object
      (List.forall_mem_cons.2 ⟨Json.fits_text name room, (came.members rereads).2⟩)

/-- What is written for a tagged value that was read is a form of it. -/
theorem form_of_read (rereads : ∀ v ∈ variants, v.Rereads write room) {source : Source}
    {draft : Draft} {v : α} (whole : read variants source (room + 1) draft = .ok v) :
    Form variants v (write v) ∧ (write v).Fits (room + 1) := by
  cases draft with
  | object ms =>
      obtain ⟨found, content, buffered, part⟩ := read_object_eq_ok_iff.1 whole
      obtain ⟨before, x, after, -, lookup, -⟩ := buffer_none_eq_ok_iff.1 buffered
      have mem := mem_of_variant lookup
      cases rereads found mem with
      | of distinct fields own =>
          obtain ⟨values, row, rfl⟩ := map_eq_ok_iff.1 part
          rw [own]
          exact form_of_came mem distinct fields (Fields.came_of_readObject row)
  | array ds =>
      cases ds with
      | nil => cases whole
      | cons x ds =>
          obtain ⟨found, lookup, -, part⟩ := read_array_eq_ok_iff.1 whole
          have mem := mem_of_variant lookup
          cases rereads found mem with
          | of distinct fields own =>
              obtain ⟨values, row, rfl⟩ := map_eq_ok_iff.1 part
              rw [own]
              exact form_of_came mem distinct fields (Fields.came_of_readArray row)
  | _ => cases whole

end Tagged

theorem rereads_requestVariants {room : Nat} (enough : 2 ≤ room) :
    ∀ v ∈ requestVariants, v.Rereads request.write room := by
  have build_ := rereads_build enough
  simp only [requestVariants, List.forall_mem_cons]
  exact ⟨.of (by decide) trivial fun _ => rfl,
    .of (by decide) ⟨.required _ rereads_text, trivial⟩ fun _ => rfl,
    .of (by decide) ⟨.required _ rereads_buildId, .required _ build_, rereads_optionalText _,
      trivial⟩ fun _ => rfl,
    .of (by decide) ⟨.required _ rereads_buildId, trivial⟩ fun _ => rfl,
    .of (by decide) ⟨.required _ build_, trivial⟩ fun _ => rfl,
    .of (by decide) trivial fun _ => rfl,
    .of (by decide) ⟨.required _ rereads_buildId, trivial⟩ fun _ => rfl,
    .of (by decide) trivial fun _ => rfl, nofun⟩

theorem rereads_responseVariants {room : Nat} (enough : 2 ≤ room) :
    ∀ v ∈ responseVariants, v.Rereads response.write room := by
  have build_ := rereads_build enough
  have missing : Field.Rereads { name := "build", codec := build.optional, absent := some none }
      room := by
    refine ⟨build_.optional fun _ => nofun, fun v missing _ => ?_, fun v omitted => ?_⟩
    · obtain rfl : none = v := by
        rcases missing with none_ | none_
        · exact Option.some.inj none_
        · cases none_
      exact ⟨.none, Nat.zero_le _, nofun⟩
    · cases omitted
  simp only [responseVariants, List.forall_mem_cons]
  exact ⟨.of (by decide) trivial fun _ => rfl,
    .of (by decide) ⟨.required _ rereads_text, trivial⟩ fun _ => rfl,
    .of (by decide) ⟨.required _ rereads_buildId, trivial⟩ fun _ => rfl,
    .of (by decide) ⟨.required _ (.list fun _ _ => rereads_text), .required _ build_, trivial⟩
      fun _ => rfl,
    .of (by decide) ⟨.required _ rereads_buildId, trivial⟩ fun _ => rfl,
    .of (by decide) ⟨.required _ rereads_buildId, trivial⟩ fun _ => rfl,
    .of (by decide) ⟨.required _ rereads_word64, .required _ rereads_word64, trivial⟩
      fun _ => rfl,
    .of (by decide) ⟨missing, trivial⟩ fun _ => rfl,
    .of (by decide) ⟨.required _ rereads_text, trivial⟩ fun _ => rfl,
    .of (by decide) trivial fun _ => rfl, nofun⟩

end Wire
end BuildPipeline
