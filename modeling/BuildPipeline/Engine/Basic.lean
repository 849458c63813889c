import BuildPipeline.Engine.Settle
import BuildPipeline.Engine.Table
import BuildPipeline.Time.Clock

/-!
The engine coordinates all active flows. It starts flows, routes events to the flow of their build,
fails the steps whose deadline has passed, and drops flows that are over. Each call gives the engine
behind it and what was done meanwhile; what a call refuses or ignores leaves the engine as it was.
-/

namespace BuildPipeline

open Time (Clock Moment Span)

/-- The coordinator of active flows. -/
structure Engine where
  chains : Chains
  mailboxes : Mailboxes := {}
  stepTimeout : Option Span := none
  clock : Clock := {}
  flows : FlowTable := {}
  deadlines : Deadlines := {}
  deriving DecidableEq

namespace Engine

/-- Why the engine did not do what it was asked. -/
inductive Refusal where
  | alreadyActive (id : BuildId)
  | notParked (id : BuildId) (status : Status)
  | flowNotFound (id : BuildId)
  | invalidEvent (defect : Defect)
  deriving DecidableEq

/-- The sentence reported for a refusal. -/
def Refusal.message : Refusal → String
  | .alreadyActive id => "build " ++ id.text ++ " already has an active flow"
  | .notParked id status =>
    "build " ++ id.text ++ " is " ++ status.name ++ "; only PARKED builds can start"
  | .flowNotFound id => "no active flow for build " ++ id.text
  | .invalidEvent defect => "invalid event: " ++ defect.message

/-- What an abort did: the containers that should be killed, and the build as it is then. -/
structure AbortOutcome where
  containerIds : List String
  build : Build
  deriving DecidableEq

/-- What settling needs to know of the engine. -/
def desk (e : Engine) : Desk :=
  { mailboxes := e.mailboxes
    stepTimeout := e.stepTimeout
    elapsed := e.clock.elapsed
    now := e.clock.now }

/-- Drops the flow of a build that is over, with its deadlines, and announces its end. -/
def onFlowEnd (e : Engine) (b : Build) : Engine × List Act :=
  if e.flows.contains b.id then
    ({ e with flows := e.flows.erase b.id, deadlines := e.deadlines.cancelBuild b.id }, [.ended b])
  else (e, [])

/-- Settles a flow and puts it back under its id; if it ended meanwhile it is dropped. -/
def settle (e : Engine) (id : BuildId) (f : Flow) (effects : List Effect) : Engine × List Act :=
  let s := e.desk.settle f e.deadlines effects
  let kept := { e with flows := e.flows.put id s.flow, deadlines := s.deadlines }
  match s.ended with
  | some b => let (rest, acts) := kept.onFlowEnd b; (rest, s.acts ++ acts)
  | none => (kept, s.acts)

/-- Creates a flow for a parked build under the given id and starts it. -/
def start (e : Engine) (id : BuildId) (b : Build) (script : Option String) :
    Engine × List Act × Except Refusal Unit :=
  if b.status ≠ .parked then (e, [], .error (.notParked id b.status))
  else if e.flows.contains id then (e, [], .error (.alreadyActive id))
  else
    let f : Flow := { build := { b with id }, script, chains := e.chains }
    let (f, effects) := f.start e.clock.now
    let (e, acts) := e.settle id f effects
    (e, acts, .ok ())

/-- The order to kill containers, if there are any. -/
def killing (ids : List String) : List Act :=
  if ids.isEmpty then [] else [.killed ids]

/-- Aborts the flow of a build, if it is active. The flow winds up on its next event; containers
that run are killed at once. Only the first abort publishes the build. -/
def abort (e : Engine) (id : BuildId) : Engine × List Act × Option AbortOutcome :=
  match e.flows.get? id with
  | none => (e, [], none)
  | some f =>
    let (g, containerIds) := f.abort e.clock.now
    let effects := if f.aborted then [] else [g.snapshot]
    let (e, acts) := e.settle id g effects
    (e, acts ++ killing containerIds, some { containerIds, build := g.build })

/-- Removes every container that a build ever had. No flow is touched. -/
def delete (b : Build) : List Act :=
  if b.containers.isEmpty then [] else [.deleted b.containers]

/-- Routes an event to the flow of its build. A completion that the flow is going to accept cancels
the deadline of its command. -/
def onEvent (e : Engine) (event : Event) : Engine × List Act × Except Refusal Unit :=
  match event.validate with
  | .error defect => (e, [], .error (.invalidEvent defect))
  | .ok () =>
    match e.flows.get? event.buildId with
    | none => (e, [], .error (.flowNotFound event.buildId))
    | some f =>
      let answered :=
        if f.accepts event then
          { e with deadlines := e.deadlines.cancel (event.buildId, event.token) }
        else e
      let (g, effects) := f.process event e.clock.now
      let (e, acts) := answered.settle event.buildId g effects
      (e, acts, .ok ())

/-- Routes events one after the other, whatever comes of them. -/
def onEvents (e : Engine) : List Event → Engine × List Act
  | [] => (e, [])
  | event :: events =>
    let (e, acts, _) := e.onEvent event
    let (e, more) := e.onEvents events
    (e, acts ++ more)

/-- Fails every step whose deadline has passed; also gives the number of these deadlines. -/
def fireDeadlines (e : Engine) : Engine × List Act × Nat :=
  let (expired, deadlines) := e.deadlines.poll e.clock.elapsed.nanos
  let (e, acts) := { e with deadlines }.onEvents (expired.map Deadline.expiredEvent)
  (e, acts, expired.length)

/-- The build of an active flow as it is now. -/
def snapshot? (e : Engine) (id : BuildId) : Option Build :=
  (e.flows.get? id).map (·.build)

/-- The builds that have an active flow. -/
def activeFlows (e : Engine) : List BuildId :=
  e.flows.ids

/-- The number of deadlines that are still to fire. -/
def pendingDeadlines (e : Engine) : Nat :=
  e.deadlines.size

/-- Moves the clock on. -/
def advance (e : Engine) (by_ : Span) : Engine :=
  { e with clock := e.clock.advance by_ }

/-- Closes the mailbox at an address for good. -/
def close (e : Engine) (address : Address) : Engine :=
  { e with mailboxes := e.mailboxes.close address }

end Engine
end BuildPipeline
