import BuildPipeline.Engine.Execution
import BuildPipeline.Provider.Basic
import BuildPipeline.Provider.Chains

/-!
The providers of a system, registered once when it starts. For every capability the providers that
serve it are brought into order; those of equal order keep the order of registration. The addresses
of the chains are the mailboxes, and each leads to the provider at the same place.
-/

namespace BuildPipeline

/-- The providers in the order of registration. -/
structure Registry where
  providers : List Provider
  deriving DecidableEq

namespace Registry

/-- The providers that serve a capability, in order, each with its place of registration. -/
def serving (r : Registry) (capability : Capability) : List (Provider × Nat) :=
  (r.providers.zipIdx.filter (·.1.serves capability)).mergeSort (·.1.order ≤ ·.1.order)

/-- The addresses of a capability. -/
def chain (r : Registry) (capability : Capability) : List Address :=
  Chains.addresses capability ((r.serving capability).map (·.1.order))

/-- The chains of all capabilities. -/
def chains (r : Registry) : Chains where
  setup := r.chain .setup
  runPhase := r.chain .runPhase
  tearDown := r.chain .tearDown

/-- Every mailbox with its provider and the place of the provider. -/
def slots (r : Registry) : List (Address × Provider × Nat) :=
  Capability.all.flatMap fun capability => (r.chain capability).zip (r.serving capability)

/-- The provider that a mailbox leads to, with its place. -/
def slot? (r : Registry) (address : Address) : Option (Provider × Nat) :=
  Keyed.get? address r.slots

/-- The provider that a mailbox leads to. -/
def provider? (r : Registry) (address : Address) : Option Provider :=
  (r.slot? address).map (·.1)

/-- The names of the providers in the order of registration. -/
def names (r : Registry) : List String :=
  r.providers.map (·.name)

/-- One mailbox for every slot. -/
def mailboxes (r : Registry) : Mailboxes :=
  { addresses := some (r.slots.map (·.1)) }

end Registry
end BuildPipeline
