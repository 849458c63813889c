import BuildPipeline.Containers
import BuildPipeline.Proofs.Engine.Moves
import BuildPipeline.Proofs.Engine.Rounds
import BuildPipeline.Store

/-!
Runs of an engine. Beside the requests there are the end of a flow that is told from outside, and
failures of the store and of the containers, which the engine never hears of. A run is the list of
its steps, each with what was done and answered (`Engine.run`). Every step keeps an engine orderly
(`Engine.Orderly.step`), and a step that names a build moves nothing else
(`Engine.Orderly.named`).
-/

namespace BuildPipeline

/-- What can be done with an engine and with the store and the containers around it. -/
inductive Operation where
  | request (r : Engine.Request)
  | flowEnd (build : Build)
  | storeFailing (failing : Bool)
  | containersFailing (failing : Bool)

/-- What an operation answers. -/
inductive Answer where
  | routed (answer : Except Engine.Refusal Unit)
  | aborted (outcome : Option Engine.AbortOutcome)
  | fired (count : Nat)
  | silent

/-- One operation on an engine and what came of it. -/
structure Step where
  before : Engine
  operation : Operation
  acts : List Act
  answer : Answer
  after : Engine

namespace Engine

/-- The build that a request names. -/
def Request.build? : Request → Option BuildId
  | .start id _ _ => some id
  | .event e => some e.buildId
  | .abort id => some id
  | .delete build => some build.id
  | .advance _ | .fire | .close _ => none

/-- What a request comes to: the engine behind it, what was done and what was answered. -/
def handle (e : Engine) : Request → Engine × List Act × Answer
  | .start id build script =>
    let (e, acts, answer) := e.start id build script
    (e, acts, .routed answer)
  | .event event =>
    let (e, acts, answer) := e.onEvent event
    (e, acts, .routed answer)
  | .abort id =>
    let (e, acts, outcome) := e.abort id
    (e, acts, .aborted outcome)
  | .delete build => (e, delete build, .silent)
  | .advance by_ => (e.advance by_, [], .silent)
  | .fire =>
    let (e, acts, count) := e.fireDeadlines
    (e, acts, .fired count)
  | .close address => (e.close address, [], .silent)

/-- What an operation comes to. Whether the store or the containers fail makes no difference. -/
def perform (e : Engine) : Operation → Engine × List Act × Answer
  | .request r => e.handle r
  | .flowEnd build =>
    let (e, acts) := e.onFlowEnd build
    (e, acts, .silent)
  | .storeFailing _ | .containersFailing _ => (e, [], .silent)

/-- One step. -/
def step (e : Engine) (op : Operation) : Step where
  before := e
  operation := op
  acts := (e.perform op).2.1
  answer := (e.perform op).2.2
  after := (e.perform op).1

/-- The steps of a run. -/
def run (e : Engine) : List Operation → List Step
  | [] => []
  | op :: ops => e.step op :: (e.step op).after.run ops

/-- The engine behind a run. -/
def after (e : Engine) (ops : List Operation) : Engine :=
  ops.foldl (fun e op => (e.step op).after) e

end Engine

/-- The build that an operation names. -/
def Operation.build? : Operation → Option BuildId
  | .request r => r.build?
  | .flowEnd build => some build.id
  | .storeFailing _ | .containersFailing _ => none

/-- The operations that name a build. -/
inductive Operation.Names : Operation → BuildId → Prop
  | start (id : BuildId) (build : Build) (script : Option String) :
      Names (.request (.start id build script)) id
  | event (e : Event) : Names (.request (.event e)) e.buildId
  | abort (id : BuildId) : Names (.request (.abort id)) id
  | delete (build : Build) : Names (.request (.delete build)) build.id
  | flowEnd (build : Build) : Names (.flowEnd build) build.id

theorem Operation.names {op : Operation} {id : BuildId} (names : op.build? = some id) :
    op.Names id := by
  cases op with
  | request r =>
      cases r with
      | start _ build script => cases names; exact .start id build script
      | event e => cases names; exact .event e
      | abort => cases names; exact .abort id
      | delete build => cases names; exact .delete build
      | advance => cases names
      | fire => cases names
      | close => cases names
  | flowEnd build => cases names; exact .flowEnd build
  | storeFailing => cases names
  | containersFailing => cases names

/-- Those of some commands that are for a build. -/
def ofBuild (id : BuildId) (sent : List (Address × Command)) : List (Address × Command) :=
  sent.filter (·.2.build.id = id)

/-- The commands that were sent for a build, in order. -/
def sentFor (id : BuildId) (steps : List Step) : List (Address × Command) :=
  ofBuild id (steps.flatMap fun s => s.acts.filterMap Act.sent?)

namespace Engine

section Steps

variable {e : Engine} {due : List Deadline} {id : BuildId} {op : Operation}

theorem silent_delete (b : Build) :
    sentBy (delete b) = [] ∧ ∀ a ∈ delete b, a.build? = none := by
  unfold delete
  split
  · exact ⟨rfl, List.forall_mem_nil _⟩
  · exact ⟨rfl, List.forall_mem_singleton.2 rfl⟩

theorem orderly_new (chains : Chains) (mailboxes : Mailboxes) (stepTimeout : Option Time.Span)
    (clock : Time.Clock) : Orderly [] { chains, mailboxes, stepTimeout, clock } := by
  refine ⟨⟨Deadlines.sound_empty, fun id f at_ => ?_, fun d mem => absurd mem List.not_mem_nil⟩,
    fun id f at_ => ?_⟩
  · cases at_
  · cases at_

theorem onEvents_cons (e : Engine) (event : Event) (events : List Event) :
    e.onEvents (event :: events) = (((e.onEvent event).1.onEvents events).1,
      (e.onEvent event).2.1 ++ ((e.onEvent event).1.onEvents events).2) :=
  rfl

theorem run_cons (e : Engine) (op : Operation) (ops : List Operation) :
    e.run (op :: ops) = e.step op :: (e.step op).after.run ops :=
  rfl

theorem Orderly.onEvents (orderly : e.Orderly due) (events : List Event) :
    (e.onEvents events).1.Orderly due := by
  induction events generalizing e with
  | nil => exact orderly
  | cons event events ih => exact ih (orderly.onEvent event).orderly

theorem Orderly.fireDeadlines (orderly : e.Orderly []) : e.fireDeadlines.1.Orderly [] :=
  ((orderly.polled _).onEvents _).mono fun _ none_ => absurd none_ List.not_mem_nil

/-- A step that names a build moves nothing else. -/
theorem Orderly.named (orderly : e.Orderly []) (names : op.build? = some id) :
    Moves [] id e (e.step op).after (e.step op).acts := by
  cases Operation.names names with
  | start _ build script => exact orderly.start id build script
  | event event => exact orderly.onEvent event
  | abort => exact orderly.abort id
  | delete build => exact .idle orderly (silent_delete build).2 (silent_delete build).1
  | flowEnd build => exact orderly.onFlowEnd build

/-- What names no build fires deadlines, or sets the clock and the mailboxes. -/
theorem perform_of_unnamed (e : Engine) (unnamed : op.build? = none) :
    op = .request .fire ∨ ∃ clock mailboxes,
      e.perform op = ({ e with clock, mailboxes }, [], .silent) := by
  cases op with
  | request r =>
      cases r with
      | start => cases unnamed
      | event => cases unnamed
      | abort => cases unnamed
      | delete => cases unnamed
      | advance by_ => exact .inr ⟨_, _, rfl⟩
      | fire => exact .inl rfl
      | close address => exact .inr ⟨_, _, rfl⟩
  | flowEnd => cases unnamed
  | storeFailing => exact .inr ⟨_, _, rfl⟩
  | containersFailing => exact .inr ⟨_, _, rfl⟩

theorem Orderly.step (orderly : e.Orderly []) (op : Operation) : (e.step op).after.Orderly [] := by
  cases names : op.build? with
  | some id => exact (orderly.named names).orderly
  | none =>
      rcases e.perform_of_unnamed names with rfl | ⟨clock, mailboxes, same⟩
      · exact orderly.fireDeadlines
      · rw [Engine.step, same]
        exact orderly.reset clock mailboxes

end Steps
end Engine
end BuildPipeline
