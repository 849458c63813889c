import BuildPipeline.Flow.Effect
import BuildPipeline.Provider.Chains
import BuildPipeline.Stage

/-!
The flow of a build: where the build stands on its way through set-up, run and tear-down, and which
commands it is waiting on. Set-up and tear-down command their providers one at a time. The run takes
one stage after the other; within a stage every phase moves along the chain on a lane of its own.
-/

namespace BuildPipeline

/-- A part of the way of a build. -/
inductive Leg where
  | setup
  | run
  | tearDown
  deriving DecidableEq, Repr

/-- The capability whose chain a leg goes along. -/
def Leg.capability : Leg → Capability
  | .setup => .setup
  | .run => .runPhase
  | .tearDown => .tearDown

/-- The way of one phase of the running stage along the chain: how many commands were sent for it,
the token that is waited on, and all tokens that were issued, latest first. -/
structure Lane where
  sent : Nat := 0
  awaited : Option Token := none
  issued : List Token := []
  deriving DecidableEq, Repr

/-- The state of a build under way. `legs` are the parts of the way not yet left, the current one
first; `dispatched` counts the commands of the current leg, where these go out one at a time;
`stages` are the stages not yet finished, the running one first; `lanes` has a lane for every phase
of the running stage; `minted` counts the tokens that were given out and is not bounded, as a flow
sends fewer than 2^64 commands. -/
structure Flow where
  build : Build
  script : Option String
  chains : Chains
  legs : List Leg := [.setup, .run, .tearDown]
  dispatched : Nat := 0
  pendingStep : Option Token := none
  stages : List Stage := []
  lanes : List Lane := []
  aborted : Bool := false
  ended : Bool := false
  minted : Nat := 0
  deriving DecidableEq

namespace Flow

/-- The leg that the flow is on. -/
def leg? (f : Flow) : Option Leg :=
  f.legs.head?

/-- The tokens that the flow waits on, in the order of their numbers. -/
def outstanding (f : Flow) : List Token :=
  (f.pendingStep.toList ++ f.lanes.filterMap (·.awaited)).mergeSort (·.number ≤ ·.number)

/-- The token that the phase at `index` of the running stage waits on. -/
def awaited? (f : Flow) (index : Nat) : Option Token :=
  f.lanes[index]?.bind (·.awaited)

/-- The number of commands sent so far for the phase at `index` of the running stage, if any. -/
def progress? (f : Flow) (index : Nat) : Option Nat :=
  f.lanes[index]?.bind fun lane => if lane.sent = 0 then none else some lane.sent

/-- A completion is accepted only if it answers a command that the flow waits on, on the leg that
the command belongs to. -/
def accepts (f : Flow) (e : Event) : Bool :=
  if f.ended then false
  else
    match f.leg?, e.kind with
    | some .setup, .setupEnd | some .tearDown, .tearDownEnd => f.pendingStep == some e.token
    | some .run, .phaseEnd =>
      match e.phase with
      | some patch => f.awaited? patch.index == some e.token
      | none => false
    | _, _ => false

/-- The order to publish the build as it stands. -/
def snapshot (f : Flow) : Effect :=
  .publish f.build

end Flow
end BuildPipeline
