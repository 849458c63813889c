import BuildPipeline.Flow.Basic

/-!
The turns of a flow. On a turn the current leg takes the event that arrived, if any, and either goes
on without waiting or waits for the next event. A turn that goes on has left a leg or finished a
stage; that is what bounds the turns of one call.
-/

namespace BuildPipeline

open Time (Moment)

/-- The outcome of a turn: the flow, what it asks of its host, and whether it goes on at once. -/
structure Turn where
  flow : Flow
  effects : List Effect
  goesOn : Bool

namespace Turn

/-- The flow waits for an event. -/
def wait (f : Flow) (effects : List Effect) : Turn :=
  ⟨f, effects, false⟩

/-- The flow goes on at once. -/
def again (f : Flow) (effects : List Effect) : Turn :=
  ⟨f, effects, true⟩

/-- The turn with effects in front of its own. -/
def behind (t : Turn) (effects : List Effect) : Turn :=
  { t with effects := effects ++ t.effects }

end Turn

namespace Flow

/-! ## Commands -/

/-- The token of the next command. -/
def nextToken (f : Flow) : Token :=
  ⟨f.minted + 1⟩

/-- Leaves the current leg; nothing of it is waited on any more. -/
def leaveLeg (f : Flow) : Flow :=
  { f with legs := f.legs.tail, dispatched := 0, pendingStep := none, lanes := [] }

/-- Ends the flow. -/
def finish (f : Flow) : Flow :=
  { f with legs := [], pendingStep := none, lanes := [], ended := true }

/-- The command of a leg that commands one provider at a time. -/
def stepCommand (f : Flow) : Leg → Command
  | .setup => .setup f.nextToken f.build f.script
  | .run | .tearDown => .tearDown f.nextToken f.build

/-- Commands the next provider of the chain; at the end of the chain the leg is left. -/
def commandStep (f : Flow) (leg : Leg) : Turn :=
  match f.chains.address? leg.capability f.dispatched with
  | none => .again f.leaveLeg []
  | some address =>
    .wait
      { f with
        dispatched := f.dispatched + 1
        pendingStep := some f.nextToken
        minted := f.minted + 1 }
      [.dispatch address (f.stepCommand leg)]

/-- The lane behind its next command. -/
def Lane.command (lane : Lane) (token : Token) : Lane :=
  { sent := lane.sent + 1, awaited := some token, issued := token :: lane.issued }

/-- The number of commands sent for the phase at `index` of the running stage. -/
def sent (f : Flow) (index : Nat) : Nat :=
  (f.progress? index).getD 0

/-- Commands the next provider of the chain for the phase at `index` of the running stage, which is
at `position` in the build. -/
def commandPhase (f : Flow) (index position : Nat) : Flow × List Effect :=
  match f.chains.address? .runPhase (f.sent index), f.build.phases[position]? with
  | some address, some phase =>
    ({ f with
        lanes := f.lanes.modify index (Lane.command · f.nextToken)
        minted := f.minted + 1 },
      [.dispatch address (.runPhase f.nextToken f.build phase)])
  | _, _ => (f, [])

/-! ## Set-up and tear-down -/

/-- Changes the phase at a position of the build. -/
def modifyPhase (f : Flow) (position : Nat) (change : Phase → Phase) : Flow :=
  { f with build := { f.build with phases := f.build.phases.modify position change } }

/-- A phase as it is loaded: parked and without results. -/
def fresh (p : Phase) : Phase :=
  { p with status := .parked, runResults := [] }

/-- Stages of the given sizes whose members follow one another from position `first` on. -/
def consecutive (first : Nat) : List Nat → List Stage
  | [] => []
  | size :: sizes => ⟨List.range' first size⟩ :: consecutive (first + size) sizes

/-- Puts the phases of the given stages in the place of all phases of the build. -/
def loadStages (f : Flow) (stages : List (List Phase)) : Flow :=
  { f with
    build := { f.build with phases := stages.flatten.map fresh }
    stages := consecutive 0 (stages.map List.length) }

/-- Loads the stages that a step brought, if it brought any. -/
def loadStages? (f : Flow) : Option (List (List Phase)) → Flow
  | some stages => f.loadStages stages
  | none => f

/-- Takes over what a successful step brought. -/
def adopt (f : Flow) (e : Event) : Flow :=
  let build :=
    { f.build with
      workspace := e.workspace.getD f.build.workspace
      repository := e.repository.getD f.build.repository }
  { f with build }.loadStages? e.stages

/-- The flow with its build failed by the event. -/
def failBuild (f : Flow) (e : Event) (now : Moment) : Flow :=
  { f with build := f.build.markFailed e.statusMessage now }

/-- What came of the completion of a step: the flow, its effects and whether it can go on. Once
aborted, a flow takes nothing over and always goes on. -/
def takeStep (f : Flow) (e : Event) (now : Moment) : Flow × List Effect × Bool :=
  if f.aborted then (f, [], true)
  else if e.isSuccess then (f.adopt e, [(f.adopt e).snapshot], true)
  else (f.failBuild e now, [(f.failBuild e now).snapshot], false)

/-- The flow with nothing to wait on in its current step. -/
def clearStep (f : Flow) : Flow :=
  { f with pendingStep := none }

/-- A turn on set-up. A failed step skips the run. -/
def setupTurn (f : Flow) (now : Moment) : Option Event → Turn
  | none => f.commandStep .setup
  | some e =>
    match f.clearStep.takeStep e now with
    | (g, effects, true) => (g.commandStep .setup).behind effects
    | (g, effects, false) => .again { g with legs := g.legs.tail }.leaveLeg effects

/-- The end of tear-down. The build is complete unless it failed or was aborted before. -/
def conclude (f : Flow) (now : Moment) : Turn :=
  if f.build.status ≠ .failed ∧ !f.aborted then
    let g := { f with build := f.build.markComplete now }
    .wait g.finish [g.snapshot, .finish g.build]
  else .wait f.finish [.finish f.build]

/-- Commands the next provider of tear-down, or ends the flow behind the last one. -/
def goOnTearDown (f : Flow) (now : Moment) : Turn :=
  if f.dispatched < f.chains.count .tearDown then f.commandStep .tearDown else f.conclude now

/-- A turn on tear-down. A failed step ends the flow. -/
def tearDownTurn (f : Flow) (now : Moment) : Option Event → Turn
  | none => f.goOnTearDown now
  | some e =>
    match f.clearStep.takeStep e now with
    | (g, effects, true) => (g.goOnTearDown now).behind effects
    | (g, effects, false) => .wait g.finish (effects ++ [.finish g.build])

/-! ## The run -/

/-- Cancels the phase at a position of the build. -/
def cancelPhase (f : Flow) (position : Nat) : Flow :=
  f.modifyPhase position fun p => { p with status := .canceled }

/-- Cancels every phase of the stages that are still queued and empties the queue. -/
def cancelQueued (f : Flow) : Flow :=
  let positions := f.stages.flatMap (·.members)
  { positions.foldl cancelPhase f with stages := [] }

/-- Once every phase of the running stage is over the stage leaves the queue, and unless all of
them are done the stages behind it are canceled. -/
def checkStage (f : Flow) (stage : Stage) : Turn :=
  if stage.isComplete f.build.phases then
    let g := { f with stages := f.stages.tail }
    let h := if stage.isSuccessful f.build.phases then g else g.cancelQueued
    .again h [h.snapshot]
  else .wait f []

/-- Starts a phase of the stage: it gets its first command, and without providers it is done at
once. -/
def startPhase (f : Flow) (index position : Nat) : Flow × List Effect :=
  if position < f.build.phases.length then
    let g := f.modifyPhase position (·.beginRun index)
    if f.chains.count .runPhase = 0 then
      (g.modifyPhase position fun p =>
        let p := p.finishRun .done
        { p with status := p.finalResult }, [])
    else g.commandPhase index position
  else (f, [])

/-- Starts the phases of the stage from `index` on. -/
def startPhases (f : Flow) (index : Nat) : List Nat → Flow × List Effect
  | [] => (f, [])
  | position :: positions =>
    let (g, effects) := f.startPhase index position
    let (h, more) := g.startPhases (index + 1) positions
    (h, effects ++ more)

/-- Starts a stage: every phase of it gets its first command. -/
def startStage (f : Flow) (stage : Stage) : Flow × List Effect :=
  let (g, effects) :=
    { f with lanes := List.replicate stage.members.length {} }.startPhases 0 stage.members
  (g, effects ++ [g.snapshot])

/-- The flow with nothing to wait on for the phase at `index` of the running stage. -/
def clearLane (f : Flow) (index : Nat) : Flow :=
  { f with lanes := f.lanes.modify index fun lane => { lane with awaited := none } }

/-- Takes over the repository of a phase, if there is one. -/
def adoptChild (f : Flow) : Option Repository → Flow
  | some child =>
    { f with build := { f.build with repository := f.build.repository.updateChild child } }
  | none => f

/-- A phase that failed. -/
def failedRun (p : Phase) : Phase :=
  { p.finishRun .failed with status := .failed }

/-- A phase that one provider is done with. A patch counts only if it names a container. -/
def passedRun (patch : PhasePatch) (p : Phase) : Phase :=
  let p := p.finishRun .done
  if patch.hasContainer then p.applyContainer patch else p

/-- The end of a phase that failed. -/
def phaseFailed (f : Flow) (stage : Stage) (position : Nat) (e : Event) : Turn :=
  let g := f.modifyPhase position failedRun
  let build := { g.build with statusMessage := e.statusMessage <|> g.build.statusMessage }
  let h := { g with build }
  (h.checkStage stage).behind [h.snapshot]

/-- A phase that one provider is done with goes on to the next one; behind the last one it is
over. -/
def phasePassed (f : Flow) (stage : Stage) (index position : Nat) (patch : PhasePatch) : Turn :=
  let g := f.modifyPhase position (passedRun patch)
  if f.chains.count .runPhase ≤ f.sent index then
    (g.modifyPhase position fun p => { p with status := p.finalResult }).checkStage stage
  else
    let (h, effects) := (g.modifyPhase position (·.beginRun index)).commandPhase index position
    .wait h effects

/-- Takes the completion of a phase of the running stage. -/
def takePhase (f : Flow) (stage : Stage) (e : Event) : Turn :=
  match e.phase with
  | none => .wait f []
  | some patch =>
    let g := f.clearLane patch.index
    match stage.position? patch.index with
    | none => .wait g []
    | some position =>
      let h := g.adoptChild e.childRepository
      if position < h.build.phases.length then
        if e.isSuccess then h.phasePassed stage patch.index position patch
        else h.phaseFailed stage position e
      else .wait h []

/-- A turn on the run. -/
def runTurn (f : Flow) (e : Option Event) : Turn :=
  match f.stages, e with
  | [], _ => .again f.leaveLeg []
  | stage :: _, none =>
    let (g, effects) := f.startStage stage
    (g.checkStage stage).behind effects
  | stage :: _, some e => f.takePhase stage e

/-- A turn on the given leg. An aborted flow drops what is left before tear-down, and the event
with it. -/
def turn (f : Flow) (leg : Leg) (e : Option Event) (now : Moment) : Turn :=
  if f.aborted ∧ leg ≠ .tearDown then .again f.leaveLeg []
  else
    match leg with
    | .setup => f.setupTurn now e
    | .run => f.runTurn e
    | .tearDown => f.tearDownTurn now e

end Flow
end BuildPipeline
