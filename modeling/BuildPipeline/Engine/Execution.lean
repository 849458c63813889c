import BuildPipeline.Flow.Effect

/-!
Carrying out what a flow asks for. Sending a command can be refused; the refusal is answered to the
flow by a failure event, so that no command is left without a reply. The store and the containers
never answer back.
-/

namespace BuildPipeline

/-- Why a command could not be handed over. -/
inductive Undeliverable where
  | noMailbox (address : Address)
  | closed (address : Address)
  deriving DecidableEq, Repr

/-- The sentence reported for a command that could not be handed over. -/
def Undeliverable.message : Undeliverable → String
  | .noMailbox address => "no provider listening at " ++ address.text
  | .closed address => "mailbox at " ++ address.text ++ " is closed"

/-- The mailboxes that commands are sent to. Where `addresses` is missing there is one at every
address. -/
structure Mailboxes where
  addresses : Option (List Address) := none
  closed : List Address := []
  deriving DecidableEq

namespace Mailboxes

/-- Why a command cannot be sent to an address, if it cannot. -/
def refusal? (m : Mailboxes) (address : Address) : Option Undeliverable :=
  if m.addresses.any (address ∉ ·) then some (.noMailbox address)
  else if address ∈ m.closed then some (.closed address)
  else none

/-- Closes the mailbox at an address for good. -/
def close (m : Mailboxes) (address : Address) : Mailboxes :=
  { m with closed := address :: m.closed }

end Mailboxes

/-- The status code of a command that could not be handed over. -/
def unavailableCode : UInt16 := 503

/-- What was done outside a flow. -/
inductive Act where
  | sent (address : Address) (command : Command)
  | published (build : Build)
  | killed (ids : List String)
  | deleted (ids : List String)
  /-- The end of a flow was announced. -/
  | ended (build : Build)
  deriving DecidableEq

/-- What carrying out an effect means for the flow that asked for it. -/
inductive Feedback where
  /-- A command was handed over; its reply is waited on. -/
  | dispatched (buildId : BuildId) (token : Token) (capability : Capability)
      (phaseIndex : Option Nat)
  /-- An event that the flow has to take at once. -/
  | event (event : Event)
  /-- The flow is over. -/
  | ended (build : Build)
  deriving DecidableEq

/-- The failure that answers a command which could not be handed over. -/
def Command.refused (c : Command) (why : Undeliverable) : Event :=
  .failed c unavailableCode why.message

/-- Carries out an effect. -/
def Effect.carryOut (mailboxes : Mailboxes) : Effect → List Act × Option Feedback
  | .dispatch address command =>
    match mailboxes.refusal? address with
    | none =>
      ([.sent address command],
        some (.dispatched command.build.id command.token command.kind
          (command.phase.map (·.index))))
    | some why => ([], some (.event (command.refused why)))
  | .publish build => ([.published build], none)
  | .finish build => ([], some (.ended build))

/-- Carries out effects in order. -/
def Effect.carryOutAll (mailboxes : Mailboxes) (effects : List Effect) :
    List Act × List Feedback :=
  (effects.flatMap fun e => (e.carryOut mailboxes).1,
    effects.filterMap fun e => (e.carryOut mailboxes).2)

end BuildPipeline
