import BuildPipeline.Message

/-!
What a flow asks of its host. A flow does nothing itself: every call on it returns the effects that
the host has to carry out, in order.
-/

namespace BuildPipeline

/-- One thing to be done for a flow. -/
inductive Effect where
  /-- Send a command to the provider at an address. -/
  | dispatch (address : Address) (command : Command)
  /-- Hand a full copy of the build to the store. -/
  | publish (build : Build)
  /-- The flow is over. -/
  | finish (build : Build)
  deriving DecidableEq

namespace Effect

/-- What reports call the effect. -/
def name : Effect → String
  | dispatch .. => "dispatch"
  | publish _ => "publish_snapshot"
  | finish _ => "end"

/-- The fields by which reports describe a build. -/
def buildFields (b : Build) : List (String × String) :=
  [("build_id", b.id.text), ("status", b.status.name)]

/-- The fields by which reports describe the effect. -/
def fields : Effect → List (String × String)
  | dispatch address command =>
    [("build_id", command.build.id.text), ("address", address.text),
     ("token", command.token.text)] ++
      (command.phase.map fun p => ("phase", p.id)).toList
  | publish b => buildFields b
  | finish b => buildFields b

end Effect
end BuildPipeline
