import BuildPipeline.Deadline
import BuildPipeline.Engine.Execution
import BuildPipeline.Flow.Progress

/-!
Settling a flow: its effects are carried out in order, and every command that is refused is answered
by a failure at its turn, whose effects queue up behind those that were there. Every command that is
sent arms a deadline.

This ends, because a refused command that the flow still waits on is a failure that the flow
accepts, and such a failure brings it nearer to its end.
-/

namespace BuildPipeline

open Time (Moment Span)

/-- What settling needs to know: where commands go, when they have to be answered, and what the
clock shows. -/
structure Desk where
  mailboxes : Mailboxes
  stepTimeout : Option Span
  elapsed : Span
  now : Moment
  deriving DecidableEq

/-- A flow that has settled: what was done meanwhile, the deadlines, and the build with which the
flow ended, if it did. -/
structure Settled where
  flow : Flow
  deadlines : Deadlines
  acts : List Act := []
  ended : Option Build := none
  deriving DecidableEq

namespace Desk

/-- The deadline of a command that was sent. It is set however far off it is; a program stops where
its clock cannot show the time at which the command has to be answered. -/
def deadline (desk : Desk) (timeout : Span) (c : Command) : Deadline :=
  { buildId := c.build.id
    token := c.token
    capability := c.kind
    phaseIndex := c.phase.map (·.index)
    fireAt := (desk.elapsed + timeout).nanos
    timeout }

/-- Arms the deadline of a command, if commands have one. -/
def arm (desk : Desk) (deadlines : Deadlines) (c : Command) : Deadlines :=
  match desk.stepTimeout with
  | some timeout => deadlines.schedule (desk.deadline timeout c)
  | none => deadlines

end Desk

theorem Command.refused_isSuccess (c : Command) (why : Undeliverable) :
    (c.refused why).isSuccess = false :=
  rfl

/-- What is left to settle: the way of the flow, then the effects. -/
abbrev Settling : (Nat × Nat × Nat) × Nat → (Nat × Nat × Nat) × Nat → Prop :=
  Prod.Lex Flow.Lighter (· < ·)

/-- Carries out effects for a flow until none is left. -/
def Desk.settle (desk : Desk) (f : Flow) (deadlines : Deadlines) (effects : List Effect) :
    Settled :=
  match effects with
  | [] => { flow := f, deadlines }
  | .publish build :: rest =>
    let s := settle desk f deadlines rest
    { s with acts := .published build :: s.acts }
  | .finish build :: rest =>
    let s := settle desk f deadlines rest
    { s with ended := s.ended <|> some build }
  | .dispatch address command :: rest =>
    match desk.mailboxes.refusal? address with
    | none =>
      let s := settle desk f (desk.arm deadlines command) rest
      { s with acts := .sent address command :: s.acts }
    | some why =>
      if _accepted : f.accepts (command.refused why) = true then
        settle desk (f.process (command.refused why) desk.now).1 deadlines
          (rest ++ (f.process (command.refused why) desk.now).2)
      else settle desk f deadlines rest
termination_by (f.weight, effects.length)
decreasing_by
  all_goals first
    | exact Prod.Lex.right _ (by simp)
    | exact Prod.Lex.left _ _ (Flow.weight_process_lt _accepted (Command.refused_isSuccess _ _))

end BuildPipeline
