import BuildPipeline.Engine.Settle
import BuildPipeline.Proofs.Deadlines
import BuildPipeline.Proofs.Flow.Failing

/-!
What keeps a flow from waiting forever. A deadline that is made out to a command stands in for the
reply to it: its event is accepted as long as the command is waited on. `Course.Kept` says that
every command that is waited on has such a deadline, or is still to go out; `Course.Pressed` bounds
the rounds that the flow can still last. `Course.Of.kept_then_` and `Course.Of.pressed_then_` are
how they go through a call.
-/

namespace BuildPipeline

open Time (Moment Span)

/-! ## Events that stand in for replies -/

/-- The deadline is made out to the command. -/
structure Deadline.For (d : Deadline) (c : Command) : Prop where
  buildId : d.buildId = c.build.id
  token : d.token = c.token
  capability : d.capability = c.kind
  index : d.phaseIndex = c.phase.map (·.index)

theorem Desk.deadline_for (desk : Desk) (timeout : Span) (c : Command) :
    (desk.deadline timeout c).For c :=
  ⟨rfl, rfl, rfl, rfl⟩

theorem Command.matches_refused (c : Command) (why : Undeliverable) :
    (c.refused why).Matches c :=
  matches_failed c unavailableCode why.message

theorem Command.proper_refused (c : Command) (why : Undeliverable) : (c.refused why).Proper :=
  fun stages => absurd rfl stages

namespace Deadline

theorem isSuccess_expiredEvent (d : Deadline) : d.expiredEvent.isSuccess = false :=
  rfl

/-- The event of a deadline passes the check, unless the build has no name. -/
theorem validate_expiredEvent {d : Deadline} (named : d.buildId.isBlank = false) :
    d.expiredEvent.validate = .ok () := by
  have code : Event.isStatusCode timeoutCode = true := by decide
  cases capability : d.capability <;>
    simp [Event.validate, expiredEvent, named, code, capability, Capability.completion,
      EventKind.namesPhase]

/-- The event of a deadline is made out to the command that the deadline is made out to. -/
theorem For.matches {d : Deadline} {c : Command} (own : d.For c)
    (run : c.phase.isSome = true ↔ c.kind = .runPhase) : d.expiredEvent.Matches c := by
  refine ⟨?_, own.token, ?_⟩
  · simp only [expiredEvent, own.capability]
  · simp only [expiredEvent, own.capability, own.index]
    cases phase : c.phase with
    | none =>
        rw [if_neg fun runs => by simpa [phase] using run.2 runs]
        rfl
    | some q =>
        rw [if_pos (run.1 (by rw [phase]; rfl))]
        rfl

end Deadline

/-! ## Deadlines of the commands of a course -/

/-- The command has a deadline: one that is set and falls due by `limit`, or one of some that are
due now. -/
def Covered (due : List Deadline) (limit : Nat) (s : Deadlines) (c : Command) : Prop :=
  ∃ d : Deadline, d.For c ∧ (s.Has d ∧ d.fireAt ≤ limit ∨ d ∈ due)

namespace Course

/-- Every command that the flow waits on is among those still to go out, or is covered. -/
def Kept (due : List Deadline) (limit : Nat) (s : Deadlines) (sent : List (Address × Command))
    (c : Course) : Prop :=
  ∀ p ∈ c.postings, p.command.token ∈ c.flow.outstanding →
    (p.address, p.command) ∈ sent ∨ Covered due limit s p.command

/-- The flow lasts fewer than `n` rounds, or `n` rounds in which all that it waits on is due now. -/
def Pressed (n : Nat) (due : List Deadline) (sent : List (Address × Command)) (c : Course) : Prop :=
  c.flow.rounds < n ∨
    c.flow.rounds ≤ n ∧ sent = [] ∧ ∀ p ∈ c.postings, p.command.token ∈ c.flow.outstanding →
      ∃ d ∈ due, d.For p.command

section Calls

variable {build : Build} {script : Option String} {chains : Chains} {c : Course} {call : Call}
  {due due' : List Deadline} {limit n : Nat} {s s' : Deadlines}
  {sent sent' : List (Address × Command)}

theorem mem_sends_of_posting {m : Entry} {p : Posting} (mem : p ∈ m.postings) :
    (p.address, p.command) ∈ sends m.effects := by
  rcases List.mem_map.1 mem with ⟨sent, sends, rfl⟩
  exact sends

/-- A call that hands over an event which is made out to a command that is waited on answers it. -/
theorem Of.answers_of_matches (of : Of build script chains c) {p : Posting} {e : Event}
    {now : Moment} (proper : e.Proper) (mem : p ∈ c.postings)
    (waits : p.command.token ∈ c.flow.outstanding) (own : e.Matches p.command) :
    (c.entry (.process e now)).Answers p :=
  of.answers proper mem (of.accepts mem waits own) own.token

/-- What covers the commands that a call leaves waiting, and what becomes of the new ones. -/
theorem Of.kept_then_ (of : Of build script chains c) (legal : call.Legal)
    (kept : c.Kept due limit s sent) (new : sends (c.entry call).effects ⊆ sent')
    (old : ∀ p ∈ c.postings, p.command.token ∈ c.flow.outstanding →
      ¬(c.entry call).Answers p →
      (p.address, p.command) ∈ sent ∨ Covered due limit s p.command →
      (p.address, p.command) ∈ sent' ∨ Covered due' limit s' p.command) :
    (c.then_ call).Kept due' limit s' sent' := by
  intro p mem waits
  rcases of.waits_then_ legal mem waits with fresh | ⟨before, waited, unanswered⟩
  · exact .inl (new (mem_sends_of_posting fresh))
  · exact old p before waited unanswered (kept p before waited)

/-- A call that brings no success presses the flow on. -/
theorem Of.pressed_then_ (of : Of build script chains c) (legal : call.Legal)
    (fails : ∀ e now, call = .process e now → e.isSuccess = false)
    (pressed : c.Pressed n due sent)
    (old : ∀ p ∈ c.postings, p.command.token ∈ c.flow.outstanding →
      ¬(c.entry call).Answers p → (∃ d ∈ due, d.For p.command) → ∃ d ∈ due', d.For p.command) :
    (c.then_ call).Pressed n due' (sends (c.entry call).effects) := by
  rcases pressed with few | ⟨few, -, all⟩
  · rcases of.falls legal fails with less | ⟨same, -⟩
    · exact .inl (Nat.lt_trans less few)
    · exact .inl (same ▸ few)
  · rcases of.falls legal fails with less | ⟨same, silent⟩
    · exact .inl (Nat.lt_of_lt_of_le less few)
    · refine .inr ⟨same ▸ few, List.map_eq_nil_iff.1 silent, fun p mem waits => ?_⟩
      rcases of.waits_then_ legal mem waits with fresh | ⟨before, waited, unanswered⟩
      · rw [silent] at fresh
        cases fresh
      · exact old p before waited unanswered (all p before waited)

/-- Two rounds more than tear-down has providers are enough for any flow. -/
theorem Of.pressed (of : Of build script chains c) (enough : chains.count .tearDown + 2 ≤ n)
    (due : List Deadline) (sent : List (Address × Command)) : c.Pressed n due sent :=
  .inl (Nat.lt_of_le_of_lt of.rounds_le enough)

end Calls

end Course
end BuildPipeline
