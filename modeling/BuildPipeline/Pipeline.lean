import BuildPipeline.Engine.Basic
import BuildPipeline.Provider.Registry

/-!
An engine together with the providers that it commands. Commands that were sent wait in one queue
and are handed to their providers in the order in which they were sent; the event with which a
provider answers is routed before the next command is handed over.

Whatever is done to the pipeline, it then runs until nothing moves. `workload` says how many
deliveries that can take: a flow sends at most one command to every provider of set-up and
tear-down, and one for every phase to every provider of the run.
-/

namespace BuildPipeline

/-- A provider at work: whether its gate is open, the commands that wait behind the gate, and all
commands that it was handed. -/
structure Host where
  provider : Provider
  gateOpen : Bool
  held : List Command := []
  calls : List Command := []
  deriving DecidableEq

/-- A command on its way: to be handed to the provider at a place, or to be gone on with there. -/
inductive Delivery where
  | handle (place : Nat) (command : Command)
  | resume (place : Nat) (command : Command)
  deriving DecidableEq

/-- An engine, its providers and the commands that are on their way. -/
structure Pipeline where
  engine : Engine
  registry : Registry
  hosts : List Host
  queue : List Delivery := []
  deriving DecidableEq

namespace Host

/-- A provider before its first command. Only a script can keep the gate closed. -/
def ofProvider (p : Provider) : Host :=
  { provider := p
    gateOpen := match p.conduct with
      | .scripted script => !script.held
      | .echo | .crash => true }

end Host

namespace Pipeline

/-- The pipeline over the given providers. -/
def ofProviders (providers : List Provider) (stepTimeout : Option Time.Span) : Pipeline :=
  let registry : Registry := ⟨providers⟩
  { engine :=
      { chains := registry.chains, mailboxes := registry.mailboxes, stepTimeout }
    registry
    hosts := providers.map Host.ofProvider }

/-- The delivery of a command that was sent to an address. -/
def delivery? (p : Pipeline) (address : Address) (c : Command) : Option Delivery :=
  (p.registry.slot? address).map fun (_, place) => .handle place c

/-- Queues up the commands that were sent. -/
def absorb (p : Pipeline) (acts : List Act) : Pipeline :=
  let sent := acts.filterMap fun
    | .sent address c => p.delivery? address c
    | _ => none
  { p with queue := p.queue ++ sent }

/-- The pipeline with another engine, and the commands that this engine sent queued up. -/
def withEngine (p : Pipeline) (e : Engine) (acts : List Act) : Pipeline :=
  { p with engine := e }.absorb acts

/-- Routes an event; what the engine refuses is dropped. -/
def route (p : Pipeline) (event : Event) : Pipeline × List Act :=
  let (e, acts, _) := p.engine.onEvent event
  (p.withEngine e acts, acts)

/-- Routes an event if there is one. -/
def route? (p : Pipeline) : Option Event → Pipeline × List Act
  | some event => p.route event
  | none => (p, [])

/-- Changes the provider at a place. -/
def modifyHost (p : Pipeline) (place : Nat) (change : Host → Host) : Pipeline :=
  { p with hosts := p.hosts.modify place change }

/-- Goes on with a command behind the gate: a stalled provider never answers. -/
def resume (p : Pipeline) (script : Script) (c : Command) : Pipeline × List Act :=
  if script.stalled then (p, []) else p.route (c.answer (script.result c))

/-- Hands a command to a scripted provider. It sends its update, and goes on with the command if
its gate is open. -/
def handleScripted (p : Pipeline) (place : Nat) (host : Host) (script : Script) (c : Command) :
    Pipeline × List Act :=
  let p := p.modifyHost place fun h => { h with calls := h.calls ++ [c] }
  let (p, acts) := p.route? (script.update? c)
  if host.gateOpen then
    let (p, more) := p.resume script c
    (p, acts ++ more)
  else (p.modifyHost place fun h => { h with held := h.held ++ [c] }, acts)

/-- Makes one delivery. -/
def deliver (p : Pipeline) : Delivery → Pipeline × List Act
  | .handle place c =>
    match p.hosts[place]? with
    | none => (p, [])
    | some host =>
      match host.provider.conduct with
      | .echo => p.route (c.answer (.ok {}))
      | .crash => p.route (c.answer host.provider.crashed)
      | .scripted script => p.handleScripted place host script c
  | .resume place c =>
    match p.hosts[place]? with
    | none => (p, [])
    | some host =>
      match host.provider.conduct with
      | .scripted script => p.resume script c
      | .echo | .crash => (p, [])

/-- The largest number of phases that a provider loads. -/
def loads (p : Pipeline) : Nat :=
  (p.hosts.filterMap fun h => match h.provider.conduct with
    | .scripted script => script.stages.map fun stages => stages.flatten.length
    | .echo | .crash => none).foldl max 0

/-- The number of commands that a flow can send. -/
def flowload (p : Pipeline) (f : Flow) : Nat :=
  f.chains.count .setup + f.chains.count .tearDown +
    max f.build.phases.length p.loads * f.chains.count .runPhase

/-- A bound on the deliveries that are made before nothing moves. -/
def workload (p : Pipeline) : Nat :=
  p.queue.length + (p.engine.flows.entries.map fun (_, f) => p.flowload f).foldl (· + ·) 0

/-- Makes at most `n` deliveries. -/
def runFor : Nat → Pipeline → Pipeline × List Act
  | 0, p => (p, [])
  | n + 1, p =>
    match p.queue with
    | [] => (p, [])
    | d :: rest =>
      let (p, acts) := { p with queue := rest }.deliver d
      let (p, more) := runFor n p
      (p, acts ++ more)

/-- Makes deliveries until nothing moves. -/
def run (p : Pipeline) : Pipeline × List Act :=
  p.runFor p.workload

/-- Takes over what the engine did, and runs. -/
def afterEngine (p : Pipeline) (e : Engine) (acts : List Act) : Pipeline × List Act :=
  let (p, more) := (p.withEngine e acts).run
  (p, acts ++ more)

/-- Routes an event from outside, and runs. -/
def publish (p : Pipeline) (event : Event) : Pipeline × List Act :=
  let (p, acts) := p.route event
  let (p, more) := p.run
  (p, acts ++ more)

/-- Sends a command past the engine, and runs. -/
def dispatch (p : Pipeline) (address : Address) (c : Command) :
    Pipeline × List Act × Except Undeliverable Unit :=
  match p.engine.mailboxes.refusal? address with
  | some why => (p, [], .error why)
  | none =>
    let (p, acts) := (p.absorb [.sent address c]).run
    (p, acts, .ok ())

/-- Opens the gate of the provider at a place; what waited behind it goes on in order. -/
def releaseAt (p : Pipeline) (place : Nat) (host : Host) : Pipeline :=
  let p := p.modifyHost place fun h => { h with gateOpen := true, held := [] }
  { p with queue := p.queue ++ host.held.map (.resume place) }

/-- Opens the gates of the providers of a name, and runs. -/
def release (p : Pipeline) (name : String) : Pipeline × List Act :=
  (p.hosts.zipIdx.foldl (fun q (host, place) =>
    if host.provider.name = name then q.releaseAt place host else q) p).run

end Pipeline
end BuildPipeline
