import BuildPipeline.Defect

/-!
The three kinds of step that a provider can perform, the kinds of event that report on them, and
the mailbox addresses at which providers are reached. Each capability has exactly one kind of
completion event; the fourth kind of event, the phase update, completes nothing.
-/

namespace BuildPipeline

/-- A kind of step. The declaration order is the order of the capabilities. -/
inductive Capability where
  | setup
  | runPhase
  | tearDown
  deriving DecidableEq, Repr, Inhabited

/-- A kind of event sent back to the flow of a build. -/
inductive EventKind where
  | setupEnd
  | phaseEnd
  | tearDownEnd
  /-- An ad-hoc report of container fields; it never advances a flow. -/
  | phaseUpdate
  deriving DecidableEq, Repr, Inhabited

namespace Capability

/-- Every capability in order. -/
def all : List Capability :=
  [.setup, .runPhase, .tearDown]

/-- The name under which a capability is written. -/
def name : Capability → String
  | .setup => "setup"
  | .runPhase => "run_phase"
  | .tearDown => "tear_down"

/-- The position of a capability in the order. -/
def rank : Capability → Nat
  | .setup => 0
  | .runPhase => 1
  | .tearDown => 2

/-- The kind of event that answers a command for this capability. -/
def completion : Capability → EventKind
  | .setup => .setupEnd
  | .runPhase => .phaseEnd
  | .tearDown => .tearDownEnd

/-- Reads a name in any case, with hyphens or nothing for the underscore and white space around
it. -/
def parse (text : String) : Except Defect Capability :=
  let name := Text.underscored (Text.trim text).toLower
  if name = "setup" then .ok .setup
  else if name = "run_phase" ∨ name = "runphase" then .ok .runPhase
  else if name = "tear_down" ∨ name = "teardown" then .ok .tearDown
  else .error (.unknownCapability text)

end Capability

namespace EventKind

/-- Every kind of event in order. -/
def all : List EventKind :=
  [.setupEnd, .phaseEnd, .tearDownEnd, .phaseUpdate]

/-- The name under which a kind of event is written. -/
def name : EventKind → String
  | .setupEnd => "SETUP_END"
  | .phaseEnd => "PHASE_END"
  | .tearDownEnd => "TEAR_DOWN_END"
  | .phaseUpdate => "PHASE_UPDATE"

/-- The channel name by which reports call a kind of event. -/
def channel : EventKind → String
  | .setupEnd => "pipeline:setup:end"
  | .phaseEnd => "pipeline:phase:end"
  | .tearDownEnd => "pipeline:tearDown:end"
  | .phaseUpdate => "pipeline:phase:update"

/-- Events about a phase have to say which. -/
def namesPhase : EventKind → Bool
  | .phaseEnd | .phaseUpdate => true
  | .setupEnd | .tearDownEnd => false

end EventKind

/-- The mailbox of one provider for one capability. `rank` is the position of the provider in its
chain, so providers of equal order still have mailboxes of their own. -/
structure Address where
  capability : Capability
  order : Int
  rank : Nat
  deriving DecidableEq, Repr

namespace Address

/-- Addresses are ordered by capability, then order, then rank. -/
def le (a b : Address) : Bool :=
  if a.capability = b.capability then
    if a.order = b.order then a.rank ≤ b.rank else a.order < b.order
  else a.capability.rank < b.capability.rank

/-- The address as reports write it; the rank does not show. -/
def text (a : Address) : String :=
  "pipeline:" ++ a.capability.name ++ ":" ++ toString a.order

end Address
end BuildPipeline
