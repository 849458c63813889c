/-!
The clean-up of containers. On an abort the containers of the canceled phases are killed, and when a
build is deleted all its containers are removed; both are best effort. The tool that does it may be
recorded only, left out, or called by a name under which there is no program.
-/

namespace BuildPipeline

/-- What is asked of the tool. -/
inductive ContainerCall where
  | kill (ids : List String)
  | delete (ids : List String)
  deriving DecidableEq, Repr

/-- The containers that a call is about. -/
def ContainerCall.ids : ContainerCall → List String
  | kill ids => ids
  | delete ids => ids

/-- Why a call did not succeed. -/
inductive ContainerError where
  | notFound (text : String)
  | commandFailed (text : String)
  deriving DecidableEq, Repr

/-- The sentence reported for an error of the tool. -/
def ContainerError.message : ContainerError → String
  | .notFound text => "container not found: " ++ text
  | .commandFailed text => "command failed: " ++ text

/-- A tool for containers. -/
inductive ContainerTool where
  /-- Records every call; while it is failing it reports an error for each. -/
  | recorder (calls : List ContainerCall) (failing : Bool)
  /-- Does nothing. -/
  | idle
  /-- Would call a program that does not exist; without containers it does not even try. -/
  | missing
  deriving DecidableEq, Repr

namespace ContainerTool

/-- Makes a call. -/
def call (tool : ContainerTool) (c : ContainerCall) : ContainerTool × Except ContainerError Unit :=
  match tool with
  | recorder calls failing =>
    (recorder (calls ++ [c]) failing,
      if failing then .error (.commandFailed "fake container failure") else .ok ())
  | idle => (idle, .ok ())
  | missing =>
    (missing,
      if c.ids.isEmpty then .ok ()
      else if c.ids.any (·.contains '\x00') then
        .error (.commandFailed "nul byte found in provided data")
      else .error (.commandFailed "No such file or directory (os error 2)"))

/-- The calls that were recorded. -/
def calls : ContainerTool → List ContainerCall
  | recorder calls _ => calls
  | idle | missing => []

/-- Sets whether calls fail, where that can be set. -/
def setFailing (tool : ContainerTool) (failing : Bool) : ContainerTool :=
  match tool with
  | recorder calls _ => recorder calls failing
  | tool => tool

end ContainerTool
end BuildPipeline
