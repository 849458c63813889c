import BuildPipeline.Config
import BuildPipeline.Pipeline
import BuildPipeline.Store
import BuildPipeline.Wire.Request

/-!
A daemon that runs: the pipeline with its engine and providers, the store of the latest copies of
builds, and whether a client asked it to stop. `handle` answers one request. It only starts work;
what was started goes on in `run`, until nothing moves.

An active flow has the freshest copy of its build, so a build is looked up there first and in the
store only then. A build is deleted on the word of the client that it is finished.
-/

namespace BuildPipeline

open Time (Span)

/-- The version of the daemon and of its messages. -/
def daemonVersion : String := "0.1.0"

/-- A running daemon. It holds the lock of the file with the number `lock`. -/
structure Daemon where
  config : Config
  lock : Nat
  pipeline : Pipeline
  store : LatestStore := {}
  shutdownRequested : Bool := false
  deriving DecidableEq

/-- Why a request about a build was refused. -/
inductive RequestRefusal where
  | notAbortable (id : BuildId) (status : Status)
  | notDeletable (id : BuildId) (status : Status)
  deriving DecidableEq

/-- The sentence reported for a refused request. -/
def RequestRefusal.message : RequestRefusal → String
  | .notAbortable id status =>
    "build " ++ id.text ++ " is " ++ status.name ++ " and cannot be aborted"
  | .notDeletable id status =>
    "build " ++ id.text ++ " is " ++ status.name ++ "; only finished builds can be deleted"

namespace Daemon

/-- A daemon with the given providers that has not done anything yet. -/
def idle (c : Config) (providers : List Provider) (lock : Nat) : Daemon where
  config := c
  lock := lock
  pipeline := .ofProviders providers c.stepTimeout

/-- The engine of a daemon. -/
def engine (d : Daemon) : Engine :=
  d.pipeline.engine

/-- Stores the copies of builds that were published. -/
def record (d : Daemon) (acts : List Act) : Daemon :=
  let published := acts.filterMap fun
    | .published b => some b
    | _ => none
  { d with store := published.foldl LatestStore.publish d.store }

/-- Takes over what the engine did: its commands are queued up and its copies stored. -/
def withEngine (d : Daemon) (e : Engine) (acts : List Act) : Daemon :=
  { d with pipeline := d.pipeline.withEngine e acts }.record acts

/-- Takes over what the pipeline did. -/
def withPipeline (d : Daemon) (p : Pipeline) (acts : List Act) : Daemon :=
  { d with pipeline := p }.record acts

/-- Runs until nothing moves. -/
def run (d : Daemon) : Daemon × List Act :=
  let (p, acts) := d.pipeline.run
  (d.withPipeline p acts, acts)

/-- The build as it is now, or as it was when its flow ended. -/
def lookUp (d : Daemon) (id : BuildId) : Option Build :=
  d.engine.snapshot? id <|> d.store.get? id

/-! ## Requests -/

/-- Starts a flow. -/
def handleStart (d : Daemon) (id : BuildId) (b : Build) (script : Option String) :
    Daemon × List Act × Response :=
  let (e, acts, result) := d.engine.start id b script
  match result with
  | .ok () => (d.withEngine e acts, acts, .started id)
  | .error why => (d.withEngine e acts, acts, .error why.message)

/-- Aborts the flow of a build whose status allows it. -/
def handleAbort (d : Daemon) (id : BuildId) : Daemon × List Act × Response :=
  match d.engine.snapshot? id with
  | none => (d, [], .notActive id)
  | some b =>
    if !b.canAbort then (d, [], .error (RequestRefusal.notAbortable id b.status).message)
    else
      let (e, acts, outcome) := d.engine.abort id
      match outcome with
      | some o => (d.withEngine e acts, acts, .aborted o.containerIds o.build)
      | none => (d.withEngine e acts, acts, .notActive id)

/-- Forgets a finished build and removes its containers. -/
def handleDelete (d : Daemon) (b : Build) : Daemon × List Act × Response :=
  if !b.canDelete then (d, [], .error (RequestRefusal.notDeletable b.id b.status).message)
  else ({ d with store := d.store.erase b.id }, Engine.delete b, .deleteAccepted b.id)

/-- Answers a request; also gives what was done for it. -/
def handle (d : Daemon) : Request → Daemon × List Act × Response
  | .ping => (d, [], .pong)
  | .hello _ => (d, [], .hello daemonVersion)
  | .start id b script => d.handleStart id b script
  | .abort id => d.handleAbort id
  | .delete b => d.handleDelete b
  | .status => (d, [], .status d.engine.clock.elapsed.seconds d.engine.activeFlows.length)
  | .getBuild id => (d, [], .build (d.lookUp id))
  | .shutdown => ({ d with shutdownRequested := true }, [], .shuttingDown)

/-! ## What happens besides requests -/

/-- Lets time go by. -/
def advance (d : Daemon) (span : Span) : Daemon :=
  { d with pipeline := { d.pipeline with engine := d.engine.advance span } }

/-- Fails every step whose deadline has passed. -/
def checkDeadlines (d : Daemon) : Daemon × List Act :=
  let (e, acts, _) := d.engine.fireDeadlines
  (d.withEngine e acts, acts)

/-- Opens the gates of the providers of a name, and runs. -/
def release (d : Daemon) (name : String) : Daemon × List Act :=
  let (p, acts) := d.pipeline.release name
  (d.withPipeline p acts, acts)

end Daemon
end BuildPipeline
