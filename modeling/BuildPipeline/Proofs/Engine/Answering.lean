import BuildPipeline.Proofs.Engine.Covering
import BuildPipeline.Proofs.Flow.Binding

/-!
The ways in which a command is answered. The host of a provider makes one completion event of a
command and its result; the executor answers for a command that it cannot hand over; the engine
answers for a command whose deadline has passed, and all that it knows of the command is what the
executor told it. The three events are made apart from one another, but each is made out to the
command, so the flow that waits on the command takes any of them (`Course.Unchecked.answerable`).
-/

namespace BuildPipeline

open Time (Moment Span)

/-- The event reaches the flow of a build and settles a token that is waited on. -/
structure Event.Settles (e : Event) (build : Build) (f : Flow) (t : Token) (success : Bool) :
    Prop where
  accepted : f.accepts e = true
  settled : ∀ now, t ∉ (f.process e now).1.outstanding
  routed : e.buildId = build.id
  valid : build.id.isBlank = false → e.validate = .ok ()
  success : e.isSuccess = success

/-- Whoever answers for a command that went to an address, the answer settles its token: the
provider, the executor that cannot hand it over, or a deadline that says of the command what the
executor told. The last two fields say that the executor has no other answers, and that the
deadlines which the engine arms are such. -/
structure Answerable (build : Build) (f : Flow) (t : Token) (a : Address) (m : Command) : Prop where
  provider : ∀ r : StepResult, (m.answer r).Settles build f t r.isOk
  refused : ∀ message, (Event.failed m unavailableCode message).Settles build f t false
  expired : ∀ (mailboxes : Mailboxes) (d : Deadline),
    ((Effect.dispatch a m).carryOut mailboxes).2 =
        some (.dispatched d.buildId d.token d.capability d.phaseIndex) →
      d.expiredEvent.Settles build f t false
  told : ∀ mailboxes : Mailboxes,
    (∃ why : Undeliverable, ((Effect.dispatch a m).carryOut mailboxes).2 =
      some (.event (.failed m unavailableCode why.message))) ∨
    ∀ (desk : Desk) (timeout : Span), ((Effect.dispatch a m).carryOut mailboxes).2 =
      some (.dispatched (desk.deadline timeout m).buildId (desk.deadline timeout m).token
        (desk.deadline timeout m).capability (desk.deadline timeout m).phaseIndex)

section Answers

variable {m : Command} {e : Event} {d : Deadline} {a : Address}

/-- A failure is never reported as a success, and always with a code that passes the check. -/
theorem StepError.reportedCode_sound (err : StepError) :
    (err.reportedCode == successCode) = false ∧ Event.isStatusCode err.reportedCode = true := by
  unfold reportedCode
  split
  · exact ⟨by decide, by decide⟩
  · rename_i usable
    rw [not_or] at usable
    exact ⟨beq_eq_false_iff_ne.2 usable.1, by simpa using usable.2⟩

theorem isSuccess_answer (m : Command) (r : StepResult) : (m.answer r).isSuccess = r.isOk := by
  cases r with
  | ok out => rfl
  | error err => exact err.reportedCode_sound.1

theorem isStatusCode_answer (m : Command) (r : StepResult) :
    Event.isStatusCode (m.answer r).statusCode = true := by
  cases r with
  | ok out =>
      have success : Event.isStatusCode successCode = true := by decide
      exact success
  | error err => exact err.reportedCode_sound.2

theorem buildId_answer (m : Command) (r : StepResult) : (m.answer r).buildId = m.build.id := by
  cases r <;> rfl

/-- An event that is made out to a command passes the check if its code does. -/
theorem Event.Matches.validate (own : e.Matches m)
    (run : m.phase.isSome = true ↔ m.kind = .runPhase) (proper : e.Proper)
    (named : e.buildId.isBlank = false) (code : Event.isStatusCode e.statusCode = true) :
    e.validate = .ok () := by
  have phase : ¬(e.kind.namesPhase = true ∧ e.phase = none) := by
    rintro ⟨names, none_⟩
    have runs : m.kind = .runPhase := by
      rw [own.kind] at names
      cases kind : m.kind with
      | runPhase => rfl
      | setup => simp [kind, Capability.completion, EventKind.namesPhase] at names
      | tearDown => simp [kind, Capability.completion, EventKind.namesPhase] at names
    obtain ⟨p, some_⟩ := Option.isSome_iff_exists.1 (run.2 runs)
    have index := own.index
    rw [none_, some_] at index
    cases index
  have stages : ¬(e.stages ≠ none ∧ e.kind ≠ .setupEnd) := fun h => h.2 (proper h.1)
  simp only [Event.validate, named, code, phase, stages, Bool.not_true, Bool.false_eq_true,
    if_false]

/-- A flow accepts what is made out to a command that it waits on in the slot of the command. -/
theorem Flow.accepts_of_slot {f : Flow} (going : f.ended = false)
    (on : f.leg? = some m.kind.leg) (run : m.phase.isSome = true ↔ m.kind = .runPhase)
    (filled : f.slot? m.slot = some m.token) (own : e.Matches m) : f.accepts e = true := by
  have index := own.index
  unfold Flow.accepts
  rw [going, on, own.kind, own.token]
  cases kind : m.kind with
  | setup =>
      have none_ : m.phase = none := by simpa [kind] using run
      rw [Command.slot, none_, Option.map_none, Flow.slot?] at filled
      simpa [Capability.leg, Capability.completion] using filled
  | tearDown =>
      have none_ : m.phase = none := by simpa [kind] using run
      rw [Command.slot, none_, Option.map_none, Flow.slot?] at filled
      simpa [Capability.leg, Capability.completion] using filled
  | runPhase =>
      obtain ⟨p, some_⟩ := Option.isSome_iff_exists.1 (run.2 kind)
      rw [some_, Option.map_some, Option.map_eq_some_iff] at index
      obtain ⟨patch, phase, index⟩ := index
      rw [Command.slot, some_, Option.map_some, Flow.slot?, ← index] at filled
      simpa [Capability.leg, Capability.completion, phase] using filled

/-- What the executor tells of a command is what a deadline for it says. -/
theorem Deadline.for_of_told {mailboxes : Mailboxes}
    (told : ((Effect.dispatch a m).carryOut mailboxes).2 =
      some (.dispatched d.buildId d.token d.capability d.phaseIndex)) : d.For m := by
  cases refusal : mailboxes.refusal? a with
  | some why =>
      rw [Effect.carryOut, refusal] at told
      cases told
  | none =>
      rw [Effect.carryOut, refusal, Option.some.injEq, Feedback.dispatched.injEq] at told
      obtain ⟨buildId, token, capability, index⟩ := told
      exact ⟨buildId.symm, token.symm, capability.symm, index.symm⟩

end Answers

namespace Course

variable {build : Build} {script : Option String} {chains : Chains} {c : Course} {t : Token}

/-- The one command with a token that is waited on. -/
theorem Slotted.posting (slotted : Slotted build c) {p : Posting} (mem : p ∈ c.postings) :
    c.postings.filter (·.command.token = p.command.token) = [p] := by
  have nodup := slotted.distinct
  rw [commands, List.map_map] at nodup
  exact filter_of_nodup_map nodup mem

/-- What is made out to a command that is waited on settles the token of the command. -/
theorem Slotted.settles_of_matches (slotted : Slotted build c) {m : Command} {e : Event}
    {success : Bool} (mem : m ∈ c.commands) (waits : m.token ∈ c.flow.outstanding)
    (own : e.Matches m) (proper : e.Proper) (buildId : e.buildId = m.build.id)
    (code : Event.isStatusCode e.statusCode = true) (told : e.isSuccess = success) :
    e.Settles build c.flow m.token success := by
  rcases slotted.made m mem with ⟨id, run⟩
  rcases Flow.mem_outstanding_iff_slot.1 waits with ⟨slot, filled⟩
  rcases slotted.slots slot _ filled with ⟨m', mem', rfl, token, on⟩
  obtain rfl := slotted.unique mem' mem token
  have going : c.flow.ended = false := by
    refine slotted.going fun legs => ?_
    rw [Flow.leg?, legs] at on
    cases on
  have accepted := Flow.accepts_of_slot going on run filled own
  refine ⟨accepted, fun now => ?_, buildId.trans id, fun named => ?_, told⟩
  · rw [← own.token]
    exact (slotted.settles accepted now).2
  · refine own.validate run proper ?_ code
    rw [buildId, id]
    exact named

/-- A token that is waited on is that of one command, and whoever answers for the command, the flow
takes the answer. -/
theorem Unchecked.answerable (run : Unchecked build script chains c)
    (waits : t ∈ c.flow.outstanding) :
    ∃ p, c.postings.filter (·.command.token = t) = [p] ∧
      Answerable build c.flow t p.address p.command := by
  have slotted := run.slotted
  rcases slotted.sent waits with ⟨m, mem, rfl⟩
  rcases List.mem_map.1 mem with ⟨p, sent, rfl⟩
  refine ⟨p, slotted.posting sent, ?_, ?_, ?_, ?_⟩
  · intro r
    exact slotted.settles_of_matches mem waits (matches_answer _ r) (proper_answer _ r)
      (buildId_answer _ r) (isStatusCode_answer _ r) (isSuccess_answer _ r)
  · intro message
    exact slotted.settles_of_matches mem waits (matches_failed _ _ _)
      (fun stages => absurd rfl stages) rfl rfl rfl
  · intro mailboxes d told
    have own := Deadline.for_of_told told
    have code : Event.isStatusCode timeoutCode = true := by decide
    exact slotted.settles_of_matches mem waits (own.matches (slotted.made _ mem).2)
      (fun stages => absurd rfl stages) own.buildId code d.isSuccess_expiredEvent
  · intro mailboxes
    cases refusal : mailboxes.refusal? p.address with
    | none =>
        refine .inr fun desk timeout => ?_
        rw [Effect.carryOut, refusal]
        rfl
    | some why =>
        refine .inl ⟨why, ?_⟩
        rw [Effect.carryOut, refusal]
        rfl

theorem answerable_misled :
    ⟨3⟩ ∈ misled.flow.outstanding ∧
      ∃ p, misled.postings.filter (·.command.token = ⟨3⟩) = [p] ∧
        Answerable { id := ⟨"b"⟩, createdAt := Moment.origin } misled.flow ⟨3⟩ p.address
          p.command := by
  have waits : ⟨3⟩ ∈ misled.flow.outstanding := by
    have outstanding : misled.flow.outstanding = [⟨3⟩] := by cbv
    rw [outstanding]
    exact List.mem_singleton_self _
  exact ⟨waits, Unchecked.answerable unchecked_misled waits⟩

end Course
end BuildPipeline
