import BuildPipeline.Proofs.Time.Written
import BuildPipeline.Proofs.Wire.Tagging

/-!
What is written is a form of the value, without the run results of its phases. `Codec.Writes` says
so of a codec, for values whose numbers have 64 bits, and there is one lemma for each way to make a
codec from others. A field that is not written is one that has its value anyway.
-/

namespace BuildPipeline

/-- All numbers of the value have 64 bits. -/
def Json.InWords (j : Json) : Prop :=
  ∀ n ∈ j.numbers, n ≤ Text.Decimal.wordLimit

/-! ## Values without run results -/

/-- The phase as it is sent: without its run results. -/
def Phase.sent (p : Phase) : Phase :=
  { p with runResults := [] }

/-- The build as it is sent. -/
def Build.sent (b : Build) : Build :=
  { b with phases := b.phases.map Phase.sent }

/-- The command as it is sent. -/
def Command.sent (c : Command) : Command :=
  { c with build := c.build.sent, phase := c.phase.map Phase.sent }

/-- The event as it is sent. -/
def Event.sent (e : Event) : Event :=
  { e with stages := e.stages.map (List.map (List.map Phase.sent)) }

/-- The request as it is sent. -/
def Request.sent : Request → Request
  | .start buildId b script => .start buildId b.sent script
  | .delete b => .delete b.sent
  | request => request

/-- The response as it is sent. -/
def Response.sent : Response → Response
  | .aborted containerIds b => .aborted containerIds b.sent
  | .build b => .build (b.map Build.sent)
  | response => response

namespace Wire

/-! ## Codecs that write forms -/

/-- What the codec writes for a value is a form of the value as it is sent. -/
def Codec.Writes {α : Type} (codec : Codec α) (sent : α → α) : Prop :=
  ∀ v, (codec.write v).InWords → codec.Form (sent v) (codec.write v)

/-- What the field writes for a value is a form of the other one; it is left out only where this is
the one that it has when it is missing. -/
def Field.WritesAs {α : Type} (field : Field α) (v v' : α) : Prop :=
  ((field.codec.write v).InWords → field.codec.Form v' (field.codec.write v)) ∧
    (field.omits v = true → field.absent = some v')

/-- The fields write forms of the values of the second row where they write the first one. -/
def Fields.WritesAs : {row : List Type} → Fields row → Row row → Row row → Prop
  | _, .nil, _, _ => True
  | _, .cons field fields, (v, values), (v', values') =>
    field.WritesAs v v' ∧ fields.WritesAs values values'

namespace Codec.Writes

variable {α : Type} {codec : Codec α} {sent : α → α}

theorem optional (writes : codec.Writes sent) (solid : ∀ v, codec.write v ≠ .null) :
    codec.optional.Writes (Option.map sent)
  | none, _ => .none
  | some v, words => .some (writes v words) (solid v)

theorem forms (writes : codec.Writes sent) {vs : List α}
    (words : ∀ v ∈ vs, (codec.write v).InWords) :
    codec.Forms (vs.map sent) (vs.map codec.write) := by
  induction vs with
  | nil => exact .nil
  | cons v vs ih =>
      obtain ⟨first, others⟩ := List.forall_mem_cons.1 words
      exact .cons (writes v first) (ih others)

theorem list (writes : codec.Writes sent) : (Codec.list codec).Writes (List.map sent) :=
  fun _ words => .list <| writes.forms fun v mem n number =>
    words n (Json.mem_elementNumbers.2 ⟨codec.write v, List.mem_map_of_mem mem, number⟩)

end Codec.Writes

namespace Field.WritesAs

variable {α : Type} {codec : Codec α} {sent : α → α}

theorem required (name : String) (writes : codec.Writes sent) (v : α) :
    (Field.required name codec).WritesAs v (sent v) :=
  ⟨writes v, nofun⟩

theorem defaulted (name : String) (value : α) (writes : codec.Writes sent) (v : α) :
    (Field.defaulted name codec value).WritesAs v (sent v) :=
  ⟨writes v, nofun⟩

theorem optional (name : String) (writes : codec.Writes sent) (solid : ∀ v, codec.write v ≠ .null)
    (v : Option α) : (Field.optional name codec).WritesAs v (v.map sent) := by
  refine ⟨writes.optional solid v, fun omitted => ?_⟩
  cases v with
  | none => rfl
  | some v => cases omitted

theorem optional_id (name : String) (writes : codec.Writes id) (solid : ∀ v, codec.write v ≠ .null)
    (v : Option α) : (Field.optional name codec).WritesAs v v := by
  have := optional name writes solid v
  rwa [Option.map_id] at this

end Field.WritesAs

namespace Fields

variable {row : List Type} {fields : Fields row} {values values' : Row row}

theorem WritesAs.members (writes : fields.WritesAs values values')
    (words : ∀ n ∈ Json.memberNumbers (fields.members values), n ≤ Text.Decimal.wordLimit) :
    fields.Members values' (fields.members values) := by
  induction fields with
  | nil => exact .nil
  | cons field fields ih =>
      obtain ⟨v, values⟩ := values
      obtain ⟨v', values'⟩ := values'
      obtain ⟨⟨form, omitted⟩, writes⟩ := writes
      rw [Fields.members] at words ⊢
      split
      · rename_i omits
        rw [if_pos omits] at words
        exact .leave (omitted omits) (ih writes words)
      · rename_i kept
        rw [if_neg kept] at words
        exact .keep (form fun n number => words n (List.mem_append_left _ number))
          (ih writes fun n number => words n (List.mem_append_right _ number))

theorem WritesAs.object (writes : fields.WritesAs values values') (distinct : fields.names.Nodup)
    (words : ∀ n ∈ Json.memberNumbers (fields.members values), n ≤ Text.Decimal.wordLimit) :
    fields.Object values' (fields.members values) :=
  .mk distinct (writes.members words) (fun m (mem : m ∈ []) => nomatch mem)
    (List.append_nil _ ▸ .refl _)

theorem mem_names_of_mem_members {m : String × Json} (mem : m ∈ fields.members values) :
    m.1 ∈ fields.names := by
  induction fields with
  | nil => cases mem
  | cons field fields ih =>
      obtain ⟨v, values⟩ := values
      rw [Fields.members] at mem
      split at mem
      · exact List.mem_cons_of_mem _ (ih mem)
      · rcases List.mem_cons.1 mem with rfl | mem
        · exact List.mem_cons_self
        · exact List.mem_cons_of_mem _ (ih mem)

end Fields

/-- A record writes forms where its fields do. -/
theorem Codec.Writes.record {α : Type} {row : List Type} {fields : Fields row} {ofRow : Row row → α}
    {toRow : α → Row row} {sent : α → α} (distinct : fields.names.Nodup)
    (writes : ∀ v, fields.WritesAs (toRow v) (toRow (sent v)))
    (back : ∀ v, ofRow (toRow (sent v)) = sent v) : (Codec.record fields ofRow toRow).Writes sent :=
  fun v words => .object ((writes v).object distinct words) (back v)

/-! ## Values with one form -/

theorem writes_text : Codec.text.Writes id :=
  fun s _ => .text s

theorem writes_texts : (Codec.list .text).Writes id := by
  have := writes_text.list
  rwa [List.map_id_fun] at this

theorem writes_word64 : Codec.word64.Writes id :=
  fun n words => .natural (words n List.mem_cons_self) (Nat.le_refl _)

theorem writes_word16 : Codec.word16.Writes id :=
  fun n _ => .imap (.natural (Nat.le_of_lt_succ n.toNat_lt) (by decide)) UInt16.ofNat_toNat

theorem writes_buildId : buildId.Writes id :=
  fun b _ => .imap (.text b.text) rfl

theorem writes_token : token.Writes id :=
  fun t words => .imap (writes_word64 t.number words) rfl

theorem writes_moment : moment.Writes id :=
  fun m _ => .spelled m.parse?_text

theorem writes_status : status.Writes id :=
  fun s _ => .enumeration (by decide) (by cases s <;> decide)

theorem writes_capability : capability.Writes id :=
  fun c _ => .enumeration (by decide) (by cases c <;> decide)

theorem writes_eventKind : eventKind.Writes id :=
  fun k _ => .enumeration (by decide) (by cases k <;> decide)

theorem writes_repositoryKind : repositoryKind.Writes id :=
  fun k _ => .enumeration (by decide) (by cases k <;> decide)

/-! ## Records -/

theorem writes_optionalText (name : String) (s : Option String) :
    (Field.optional name .text).WritesAs s s :=
  .optional_id name writes_text (fun _ => nofun) s

theorem writes_optionalWord16 (name : String) (n : Option UInt16) :
    (Field.optional name .word16).WritesAs n n :=
  .optional_id name writes_word16 (fun _ => nofun) n

theorem writes_phase : phase.Writes Phase.sent :=
  .record (by decide) (fun _ => ⟨.required _ writes_text _, .defaulted _ _ writes_text _,
    .defaulted _ _ writes_word64 _, .defaulted _ _ writes_status _, writes_optionalText _ _,
    writes_optionalText _ _, writes_optionalWord16 _ _, writes_optionalText _ _,
    writes_optionalText _ _, trivial⟩) fun _ => rfl

theorem writes_phasePatch : phasePatch.Writes id :=
  .record (by decide) (fun _ => ⟨.required _ writes_word64 _, writes_optionalText _ _,
    writes_optionalText _ _, writes_optionalWord16 _ _, trivial⟩) fun _ => rfl

theorem writes_workspace : workspace.Writes id :=
  .record (by decide) (fun _ => ⟨.required _ writes_text _, writes_optionalText _ _,
    writes_optionalText _ _, trivial⟩) fun _ => rfl

/-! ## Repositories -/

theorem writeRepositories_eq_map (rs : List Repository) :
    writeRepositories rs = rs.map writeRepository := by
  induction rs with
  | nil => rfl
  | cons r rs ih => rw [writeRepositories, ih, List.map_cons]

/-- A repository is written as the record that it is. -/
theorem write_repository (r : Repository) : repository.write r = repositoryRecord.write r := by
  obtain ⟨kind, uri, branch, metadata, children⟩ := r
  change writeRepository _ = _
  rw [writeRepository, writeRepositories_eq_map]
  cases children with
  | nil => rfl
  | cons child children =>
      have same : (Codec.list verbatim).write ((child :: children).map writeRepository) =
          (Codec.list repository).write (child :: children) :=
        congrArg Json.array (List.map_id _)
      change Json.object ((repositoryFields verbatim).members
        (kind, uri, branch, metadata, (child :: children).map writeRepository, ())) =
        .object ((repositoryFields repository).members
          (kind, uri, branch, metadata, child :: children, ()))
      simp only [repositoryFields, Fields.members, same]
      rfl

mutual

theorem form_repository (r : Repository) (words : (repository.write r).InWords) :
    repository.Form r (repository.write r) := by
  match r with
  | ⟨kind, uri, branch, metadata, children⟩ =>
      rw [write_repository] at words ⊢
      have writes : (repositoryFields repository).WritesAs
          (kind, uri, branch, metadata, children, ())
          (kind, uri, branch, metadata, children, ()) := by
        refine ⟨.defaulted _ _ writes_repositoryKind _, writes_optionalText _ _,
          writes_optionalText _ _, writes_optionalText _ _, ⟨fun words => ?_, fun empty => ?_⟩,
          trivial⟩
        · exact .list (forms_repositories children fun r mem n number => words n
            (Json.mem_elementNumbers.2 ⟨repository.write r, List.mem_map_of_mem mem, number⟩))
        · exact congrArg some (List.isEmpty_iff.1 empty).symm
      exact .repository (.object (writes.object (by decide) words) rfl)

theorem forms_repositories (rs : List Repository)
    (words : ∀ r ∈ rs, (repository.write r).InWords) :
    repository.Forms rs (rs.map repository.write) := by
  match rs with
  | [] => exact .nil
  | r :: rs =>
      obtain ⟨first, others⟩ := List.forall_mem_cons.1 words
      exact .cons (form_repository r first) (forms_repositories rs others)

end

theorem writes_repository : repository.Writes id :=
  form_repository

theorem write_repository_ne_null (r : Repository) : repository.write r ≠ .null := by
  rw [write_repository]
  exact nofun

/-! ## Builds and messages -/

theorem writes_phases : (Codec.list phase).Writes (List.map Phase.sent) :=
  writes_phase.list

theorem writes_build : build.Writes Build.sent :=
  .record (by decide) (fun _ => ⟨.required _ writes_buildId _, writes_optionalText _ _,
    .defaulted _ _ writes_status _, .defaulted _ _ writes_phases _,
    .defaulted _ _ writes_workspace _, .defaulted _ _ writes_repository _,
    writes_optionalText _ _, .required _ writes_moment _,
    .optional_id _ writes_moment (fun _ => nofun) _, trivial⟩) fun _ => rfl

theorem writes_command : command.Writes Command.sent :=
  .record (by decide) (fun _ => ⟨.required _ writes_capability _, .required _ writes_token _,
    .required _ writes_build _, .optional _ writes_phase (fun _ => nofun) _,
    writes_optionalText _ _, trivial⟩) fun _ => rfl

theorem writes_event : event.Writes Event.sent :=
  .record (by decide) (fun _ => ⟨.required _ writes_eventKind _, .required _ writes_buildId _,
    .required _ writes_token _, .defaulted _ _ writes_word16 _, writes_optionalText _ _,
    .optional_id _ writes_workspace (fun _ => nofun) _,
    .optional_id _ writes_repository write_repository_ne_null _,
    .optional_id _ writes_repository write_repository_ne_null _,
    .optional_id _ writes_phasePatch (fun _ => nofun) _,
    .optional _ writes_phases.list (fun _ => nofun) _, trivial⟩) fun _ => rfl

/-! ## Tagged values -/

namespace Tagged

/-- A variant is written as a form where its fields are. -/
theorem form_write {α : Type} {variants : List (Variant α)} {row : List Type} {name : String}
    (fields : Fields row) {ofRow : Row row → α} {values : Row row} (values' : Row row)
    (mem : .of name fields ofRow ∈ variants) (distinct : (tag :: fields.names).Nodup)
    (writes : fields.WritesAs values values') (words : (Tagged.write name fields values).InWords) :
    Form variants (ofRow values') (Tagged.write name fields values) := by
  obtain ⟨fresh, distinct⟩ := List.nodup_cons.1 distinct
  refine .object mem (writes.object distinct words) (fun m member eq => fresh ?_) (.refl _)
  exact eq ▸ Fields.mem_names_of_mem_members member

end Tagged

open Tagged (form_write)

theorem form_request (r : Request) (words : (request.write r).InWords) :
    Tagged.Form requestVariants r.sent (request.write r) := by
  have variant := @List.mem_of_getElem? _ requestVariants
  cases r with
  | ping => exact form_write .nil () (variant (i := 0) rfl) (by decide) trivial words
  | hello version =>
      exact form_write versionFields (version, ()) (variant (i := 1) rfl) (by decide)
        ⟨.required _ writes_text _, trivial⟩ words
  | start buildId b script =>
      exact form_write startFields (buildId, b.sent, script, ()) (variant (i := 2) rfl) (by decide)
        ⟨.required _ writes_buildId _, .required _ writes_build _, writes_optionalText _ _, trivial⟩
        words
  | abort buildId =>
      exact form_write buildIdFields (buildId, ()) (variant (i := 3) rfl) (by decide)
        ⟨.required _ writes_buildId _, trivial⟩ words
  | delete b =>
      exact form_write deleteFields (b.sent, ()) (variant (i := 4) rfl) (by decide)
        ⟨.required _ writes_build _, trivial⟩ words
  | status => exact form_write .nil () (variant (i := 5) rfl) (by decide) trivial words
  | getBuild buildId =>
      exact form_write buildIdFields (buildId, ()) (variant (i := 6) rfl) (by decide)
        ⟨.required _ writes_buildId _, trivial⟩ words
  | shutdown => exact form_write .nil () (variant (i := 7) rfl) (by decide) trivial words

theorem form_response (r : Response) (words : (response.write r).InWords) :
    Tagged.Form responseVariants r.sent (response.write r) := by
  have variant := @List.mem_of_getElem? _ responseVariants
  cases r with
  | pong => exact form_write .nil () (variant (i := 0) rfl) (by decide) trivial words
  | hello version =>
      exact form_write versionFields (version, ()) (variant (i := 1) rfl) (by decide)
        ⟨.required _ writes_text _, trivial⟩ words
  | started buildId =>
      exact form_write buildIdFields (buildId, ()) (variant (i := 2) rfl) (by decide)
        ⟨.required _ writes_buildId _, trivial⟩ words
  | aborted containerIds b =>
      exact form_write abortedFields (containerIds, b.sent, ()) (variant (i := 3) rfl) (by decide)
        ⟨.required _ writes_texts _, .required _ writes_build _, trivial⟩ words
  | notActive buildId =>
      exact form_write buildIdFields (buildId, ()) (variant (i := 4) rfl) (by decide)
        ⟨.required _ writes_buildId _, trivial⟩ words
  | deleteAccepted buildId =>
      exact form_write buildIdFields (buildId, ()) (variant (i := 5) rfl) (by decide)
        ⟨.required _ writes_buildId _, trivial⟩ words
  | status uptimeSeconds flowsActive =>
      exact form_write statusFields (uptimeSeconds, flowsActive, ()) (variant (i := 6) rfl)
        (by decide) ⟨.required _ writes_word64 _, .required _ writes_word64 _, trivial⟩ words
  | build b =>
      exact form_write buildField (b.map Build.sent, ()) (variant (i := 7) rfl) (by decide)
        ⟨⟨writes_build.optional (fun _ => nofun) b, nofun⟩, trivial⟩ words
  | error message =>
      exact form_write messageFields (message, ()) (variant (i := 8) rfl) (by decide)
        ⟨.required _ writes_text _, trivial⟩ words
  | shuttingDown => exact form_write .nil () (variant (i := 9) rfl) (by decide) trivial words

/-! ## Run results are not written -/

section

variable {α : Type} {codec : Codec α} {sent : α → α}

theorem write_list_sent (same : ∀ v, codec.write (sent v) = codec.write v) (vs : List α) :
    (Codec.list codec).write (vs.map sent) = (Codec.list codec).write vs := by
  have both : codec.write ∘ sent = codec.write := funext same
  simp only [Codec.list, List.map_map, both]

theorem write_optional_sent (same : ∀ v, codec.write (sent v) = codec.write v) (v : Option α) :
    codec.optional.write (v.map sent) = codec.optional.write v := by
  cases v with
  | none => rfl
  | some v => exact same v

end

theorem write_phase_sent (p : Phase) : phase.write p.sent = phase.write p :=
  rfl

theorem write_phases_sent (ps : List Phase) :
    (Codec.list phase).write (ps.map Phase.sent) = (Codec.list phase).write ps :=
  write_list_sent write_phase_sent ps

theorem write_build_sent (b : Build) : build.write b.sent = build.write b := by
  simp only [build, Codec.record, buildFields, Fields.members, Build.sent, Field.required,
    Field.optional, Field.defaulted, write_phases_sent]

theorem write_command_sent (c : Command) : command.write c.sent = command.write c := by
  have phase_ : phase.optional.write (c.phase.map Phase.sent) = phase.optional.write c.phase :=
    write_optional_sent write_phase_sent c.phase
  simp only [command, Codec.record, commandFields, Fields.members, Command.sent, Field.required,
    Field.optional, phase_, write_build_sent, Option.isNone_map]

theorem write_event_sent (e : Event) : event.write e.sent = event.write e := by
  have stages : (Codec.list (.list phase)).optional.write
      (e.stages.map (List.map (List.map Phase.sent))) =
        (Codec.list (.list phase)).optional.write e.stages :=
    write_optional_sent (write_list_sent write_phases_sent) e.stages
  simp only [event, Codec.record, eventFields, Fields.members, Event.sent, Field.required,
    Field.optional, Field.defaulted, stages, Option.isNone_map]

theorem write_request_sent (r : Request) : request.write r.sent = request.write r := by
  cases r with
  | start buildId b script =>
      simp only [request, Request.sent, Tagged.write, startFields, Fields.members, Field.required,
        write_build_sent]
  | delete b =>
      simp only [request, Request.sent, Tagged.write, deleteFields, Fields.members, Field.required,
        write_build_sent]
  | _ => rfl

theorem write_response_sent (r : Response) : response.write r.sent = response.write r := by
  cases r with
  | aborted containerIds b =>
      simp only [response, Response.sent, Tagged.write, abortedFields, Fields.members,
        Field.required, write_build_sent]
  | build b =>
      simp only [response, Response.sent, Tagged.write, buildField, Fields.members,
        write_optional_sent write_build_sent]
  | _ => rfl

end Wire
end BuildPipeline
