import BuildPipeline.Phase
import BuildPipeline.Repository
import BuildPipeline.Time.Moment

/-!
A build is one execution of a pipeline. Its phases form one flat list across all stages. Marking a
build for abort or failure ends every phase that is not over yet; marking it complete asks every
phase to be done.
-/

namespace BuildPipeline

open Time (Moment)

/-- The name of a build, unique among the builds that are active. -/
structure BuildId where
  text : String
  deriving DecidableEq, Repr

/-- One execution of a pipeline. -/
structure Build where
  id : BuildId
  pipelineId : Option String := none
  status : Status := .parked
  phases : List Phase := []
  workspace : Workspace := {}
  repository : Repository := {}
  statusMessage : Option String := none
  createdAt : Moment
  endDate : Option Moment := none
  deriving DecidableEq

namespace BuildId

/-- A blank id names no build. -/
def isBlank (id : BuildId) : Bool :=
  Text.isBlank id.text

/-- Ids are ordered as texts. -/
def le (a b : BuildId) : Bool :=
  a.text ≤ b.text

end BuildId

namespace Build

/-- A parked build under an id that is not blank. -/
def create (id : BuildId) (now : Moment) : Except Defect Build :=
  if id.isBlank then .error (.blank "build id") else .ok { id, createdAt := now }

/-- A build can be aborted until it is over. -/
def canAbort (b : Build) : Bool :=
  b.status.isCancellable

/-- Only a build that is over can be deleted. -/
def canDelete (b : Build) : Bool :=
  b.status.isTerminal

/-- Gives every phase that is not over the status `s`. -/
def settlePhases (b : Build) (s : Status) : Build :=
  { b with
    phases := b.phases.map fun p => if p.status.isCancellable then { p with status := s } else p }

/-- The container ids, of those given, that are not blank. -/
def namedContainers (ids : List (Option String)) : List String :=
  (ids.filterMap (·)).filter (!Text.isBlank ·)

/-- The containers of the phases that an abort would cancel. -/
def cancellableContainers (b : Build) : List String :=
  namedContainers ((b.phases.filter (·.status.isCancellable)).map (·.containerId))

/-- The containers of all phases. -/
def containers (b : Build) : List String :=
  namedContainers (b.phases.map (·.containerId))

/-- Cancels the build and every phase that is not over. -/
def markAborted (b : Build) (now : Moment) : Build :=
  { b.settlePhases .canceled with status := .canceled, endDate := some now }

/-- Fails the build and every phase that is not over; a message that is given replaces the old
one. -/
def markFailed (b : Build) (message : Option String) (now : Moment) : Build :=
  { b.settlePhases .failed with
    status := .failed
    endDate := some now
    statusMessage := message <|> b.statusMessage }

/-- Ends the build: done when every phase is done, failed otherwise. -/
def markComplete (b : Build) (now : Moment) : Build :=
  { b with
    endDate := some now
    status := if b.phases.all (·.status == .done) then .done else .failed }

end Build
end BuildPipeline
