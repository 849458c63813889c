import BuildPipeline.Message

/-!
What a provider makes of a command, and the one completion event that answers it. A failure always
stays a failure and always passes the check of events, so a code that would say otherwise is
replaced.
-/

namespace BuildPipeline

/-- What a successful step brings along. -/
structure StepOutput where
  workspace : Option Workspace := none
  repository : Option Repository := none
  childRepository : Option Repository := none
  container : Option PhasePatch := none
  stages : Option (List (List Phase)) := none
  deriving DecidableEq

/-- How a step failed. -/
structure StepError where
  code : UInt16
  message : String
  deriving DecidableEq, Repr

/-- The result of a step. -/
abbrev StepResult : Type := Except StepError StepOutput

namespace StepError

/-- The status code of a failure without a usable code of its own. -/
def internalCode : UInt16 := 500

/-- A failure of the provider itself. -/
def internal (message : String) : StepError :=
  { code := internalCode, message }

/-- The failure as reports write it. -/
def text (e : StepError) : String :=
  e.message ++ " (status " ++ toString e.code.toNat ++ ")"

/-- The code that a failure is reported with. -/
def reportedCode (e : StepError) : UInt16 :=
  if e.code = successCode ∨ !Event.isStatusCode e.code then internalCode else e.code

end StepError

namespace StepOutput

/-- The patch of a phase with the container fields that the step brought. The index stays that of
the phase. -/
def patch (out : StepOutput) (p : PhasePatch) : PhasePatch :=
  match out.container with
  | some container => { container with index := p.index }
  | none => p

end StepOutput

/-- The completion event that answers a command. Stages count only for set-up. -/
def Command.answer (c : Command) : StepResult → Event
  | .error e => .failed c e.reportedCode e.message
  | .ok out =>
    { Event.completion c with
      workspace := out.workspace
      repository := out.repository
      childRepository := out.childRepository
      phase := (Event.completion c).phase.map out.patch
      stages := if c.kind = .setup then out.stages else none }

end BuildPipeline
