import BuildPipeline.Capability

/-!
The provider chains: for every capability, the addresses of the providers that serve it, in the
order in which they are commanded. The chains are fixed when the system starts. An address names
its position in its chain, so the addresses of a chain are all different.
-/

namespace BuildPipeline

/-- The addresses of every capability, in the order of command. -/
structure Chains where
  setup : List Address := []
  runPhase : List Address := []
  tearDown : List Address := []
  deriving DecidableEq, Repr

namespace Chains

/-- The addresses of providers that are already in order. -/
def addresses (capability : Capability) (orders : List Int) : List Address :=
  orders.mapIdx fun rank order => { capability, order, rank }

/-- Orders from the least to the greatest. -/
def sorted (orders : List Int) : List Int :=
  orders.mergeSort (· ≤ ·)

/-- The chains of providers of which only the orders are given. -/
def ofOrders (setup runPhase tearDown : List Int) : Chains where
  setup := addresses .setup (sorted setup)
  runPhase := addresses .runPhase (sorted runPhase)
  tearDown := addresses .tearDown (sorted tearDown)

/-- The chain of a capability. -/
def chain (c : Chains) : Capability → List Address
  | .setup => c.setup
  | .runPhase => c.runPhase
  | .tearDown => c.tearDown

/-- The number of providers that serve a capability. -/
def count (c : Chains) (capability : Capability) : Nat :=
  (c.chain capability).length

/-- The address of the provider at position `n`. -/
def address? (c : Chains) (capability : Capability) (n : Nat) : Option Address :=
  (c.chain capability)[n]?

end Chains
end BuildPipeline
