import BuildPipeline.Flow.Drive
import BuildPipeline.Keyed

/-!
The flows that are active, by build id. A build id has at most one active flow. Flows share nothing
but this table, so whatever is done to one leaves the others as they are.
-/

namespace BuildPipeline

/-- The active flows. -/
structure FlowTable where
  entries : List (BuildId × Flow) := []
  deriving DecidableEq

namespace FlowTable

/-- The active flow of a build. -/
def get? (t : FlowTable) (id : BuildId) : Option Flow :=
  Keyed.get? id t.entries

/-- Whether a build has an active flow. -/
def contains (t : FlowTable) (id : BuildId) : Bool :=
  (t.get? id).isSome

/-- Drops the flow of a build. -/
def erase (t : FlowTable) (id : BuildId) : FlowTable :=
  ⟨Keyed.erase id t.entries⟩

/-- Puts a flow in the place of the one that the build has, or adds it. -/
def put (t : FlowTable) (id : BuildId) (f : Flow) : FlowTable :=
  ⟨Keyed.put id f t.entries⟩

/-- Adds the flow of a build that has none. -/
def insert? (t : FlowTable) (id : BuildId) (f : Flow) : Option FlowTable :=
  if t.contains id then none else some (t.put id f)

/-- The builds that have an active flow, in order. -/
def ids (t : FlowTable) : List BuildId :=
  (t.entries.map (·.1)).mergeSort BuildId.le

/-- The number of active flows. -/
def size (t : FlowTable) : Nat :=
  t.entries.length

end FlowTable
end BuildPipeline
