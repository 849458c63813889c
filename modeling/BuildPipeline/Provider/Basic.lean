import BuildPipeline.Keyed
import BuildPipeline.Provider.Step

/-!
Providers: who performs steps. A provider has a name, serves some capabilities and takes its place
among its peers by its order. What it does with a command is its conduct.
-/

namespace BuildPipeline

/-- What a scripted provider answers. `phaseFailures`, `containers` and `updates` go by the index
of the phase. A provider that is held answers nothing before it is released; one that is stalled
never answers. -/
structure Script where
  stages : Option (List (List Phase)) := none
  failure : Option StepError := none
  phaseFailures : List (Nat × StepError) := []
  containers : List (Nat × String) := []
  updates : List (Nat × String) := []
  stalled : Bool := false
  held : Bool := false
  deriving DecidableEq

/-- What a provider does with its commands. -/
inductive Conduct where
  /-- Completes every command. -/
  | echo
  /-- Breaks down on every command. -/
  | crash
  /-- Answers by a script and keeps a record of its commands. -/
  | scripted (script : Script)
  deriving DecidableEq

/-- The order of a provider that names none. -/
def defaultOrder : Int := 100

/-- A provider. -/
structure Provider where
  name : String
  capabilities : List Capability
  order : Int := defaultOrder
  conduct : Conduct := .echo
  deriving DecidableEq

namespace Script

/-- The index of the phase that a command is about; 0 where there is none. -/
def index (c : Command) : Nat :=
  (c.phase.map (·.index)).getD 0

/-- The result of a command about a phase. -/
def phaseResult (s : Script) (index : Nat) : StepResult :=
  match Keyed.get? index s.phaseFailures with
  | some e => .error e
  | none =>
    .ok { container := (Keyed.get? index s.containers).map fun id =>
            { index, containerId := some id } }

/-- The result of a command. A general failure goes before all else. -/
def result (s : Script) (c : Command) : StepResult :=
  match s.failure with
  | some e => .error e
  | none =>
    match c.kind with
    | .setup => .ok { stages := s.stages }
    | .runPhase => s.phaseResult (index c)
    | .tearDown => .ok {}

/-- The update that is sent before the step completes, if the script has one for its phase. -/
def update? (s : Script) (c : Command) : Option Event := do
  let p ← c.phase
  let id ← Keyed.get? p.index s.updates
  return .phaseUpdate c.build.id c.token { index := p.index, containerId := some id }

end Script

namespace Provider

/-- Whether a provider serves a capability. -/
def serves (p : Provider) (capability : Capability) : Bool :=
  p.capabilities.contains capability

/-- The result of a provider that broke down. -/
def crashed (p : Provider) : StepResult :=
  .error (.internal ("provider " ++ p.name ++ " crashed"))

end Provider
end BuildPipeline
