import BuildPipeline.Phase

/-!
A stage is a set of phases that run in parallel. It owns no phase: it holds positions into the
flat list of all phases of the build, so that a change to a phase is a change to the build.
-/

namespace BuildPipeline

/-- The positions of the phases of a stage, ordered by the index of the phase in the stage. -/
structure Stage where
  members : List Nat
  deriving DecidableEq, Repr

namespace Stage

/-- The position in the build of the phase at `index` of the stage. -/
def position? (s : Stage) (index : Nat) : Option Nat :=
  s.members[index]?

/-- The phases of the stage; a position that holds no phase is passed over. -/
def phases (s : Stage) (all : List Phase) : List Phase :=
  s.members.filterMap (all[·]?)

/-- A stage is complete when every phase of it has a terminal final result. -/
def isComplete (s : Stage) (all : List Phase) : Bool :=
  (s.phases all).all (·.finalResult.isTerminal)

/-- A stage is successful when every phase of it is done. -/
def isSuccessful (s : Stage) (all : List Phase) : Bool :=
  (s.phases all).all (·.finalResult == .done)

end Stage
end BuildPipeline
