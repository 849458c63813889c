import BuildPipeline.Build
import BuildPipeline.Capability

/-!
Commands go to one provider; completion events come back on a channel that all providers of a
capability share. The token of a command binds every reply to the command that caused it. An event
is checked once, where it enters the system.
-/

namespace BuildPipeline

/-- The number that binds a reply to its command; a flow gives each of its commands a new one. On
the wire it has 64 bits. Here it is not bounded, so a flow is taken to send fewer than 2^64
commands. -/
structure Token where
  number : Nat
  deriving DecidableEq, Repr

/-- The token as reports write it. -/
def Token.text (t : Token) : String :=
  "cmd-" ++ toString t.number

/-- A request that a provider perform one step of a build. -/
structure Command where
  kind : Capability
  token : Token
  build : Build
  phase : Option Phase := none
  script : Option String := none
  deriving DecidableEq

namespace Command

/-- The command that opens a build. -/
def setup (token : Token) (build : Build) (script : Option String) : Command :=
  { kind := .setup, token, build, script }

/-- The command to run one phase. -/
def runPhase (token : Token) (build : Build) (phase : Phase) : Command :=
  { kind := .runPhase, token, build, phase := some phase }

/-- The command that cleans up after a build. -/
def tearDown (token : Token) (build : Build) : Command :=
  { kind := .tearDown, token, build }

end Command

/-- The status code of a successful step. -/
def successCode : UInt16 := 200

/-- A report on a step, or on the container of a phase. Stages come with the completion of a setup
step only. -/
structure Event where
  kind : EventKind
  buildId : BuildId
  token : Token
  statusCode : UInt16 := successCode
  statusMessage : Option String := none
  workspace : Option Workspace := none
  repository : Option Repository := none
  childRepository : Option Repository := none
  phase : Option PhasePatch := none
  stages : Option (List (List Phase)) := none
  deriving DecidableEq

namespace Event

/-- The successful completion of a command; for a phase it names the index of the phase. -/
def completion (c : Command) : Event :=
  { kind := c.kind.completion
    buildId := c.build.id
    token := c.token
    phase := c.phase.map fun p => { index := p.index } }

/-- The completion of a command with a code and a message of its own. -/
def failed (c : Command) (code : UInt16) (message : String) : Event :=
  { completion c with statusCode := code, statusMessage := some message }

/-- The report of container fields for a phase. -/
def phaseUpdate (buildId : BuildId) (token : Token) (patch : PhasePatch) : Event :=
  { kind := .phaseUpdate, buildId, token, phase := some patch }

/-- A step succeeded when its code says so. -/
def isSuccess (e : Event) : Bool :=
  e.statusCode == successCode

/-- The codes that an event may carry. -/
def isStatusCode (code : UInt16) : Bool :=
  100 ≤ code && code ≤ 599

/-- Refuses an event without build id, with a code that means nothing, without the phase that its
kind is about, or with stages outside a setup. The first of these reasons is the one given. -/
def validate (e : Event) : Except Defect Unit :=
  if e.buildId.isBlank then .error (.blank "build id")
  else if !isStatusCode e.statusCode then .error (.statusCodeOutOfRange e.statusCode)
  else if e.kind.namesPhase ∧ e.phase = none then
    .error (.missingPhase e.kind.channel e.buildId.text)
  else if e.stages ≠ none ∧ e.kind ≠ .setupEnd then
    .error (.unexpectedStages e.kind.channel e.buildId.text)
  else .ok ()

end Event
end BuildPipeline
