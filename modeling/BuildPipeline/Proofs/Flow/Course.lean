import BuildPipeline.Flow.Drive
import BuildPipeline.Proofs.Flow.Effects

/-!
The course of a flow: the calls that were made on it, one after the other, and what came of each.
The calls are what a host can do: it starts the flow once and first, and from then on hands it any
events and aborts it, in any order.

Every command of a course belongs to a line, which is a walk along one provider chain: the line of
set-up, the line of tear-down, and a line for every phase of every stage that was started. The
commands of a line are told by `Course.sentOn`. Stages are numbered from zero in the order in which
they were started.

`drive_rule` is how facts about a call are proved: what one turn preserves, a call preserves.
-/

namespace BuildPipeline

open Time (Moment)

/-- A call on a flow. -/
inductive Call where
  | start (now : Moment)
  | process (event : Event) (now : Moment)
  | abort (now : Moment)
  deriving DecidableEq

/-- Stages come with the completion of set-up only, which is what the check of events enforces. -/
def Event.Proper (e : Event) : Prop :=
  e.stages ≠ none → e.kind = .setupEnd

/-- The calls that may follow the start: any event that passes the check, and an abort. -/
def Call.Legal : Call → Prop
  | .start _ => False
  | .process e _ => e.Proper
  | .abort _ => True

namespace Flow

/-- The stage that a turn starts, if it starts one. -/
def starting? (f : Flow) (leg : Leg) (e : Option Event) : Option Stage :=
  if f.aborted = false ∧ leg = .run ∧ e = none then f.stages.head? else none

/-- The stages that are started while the flow is driven, in order. -/
def startedBy (f : Flow) (e : Option Event) (now : Moment) : List Stage :=
  match _legs : f.legs with
  | [] => []
  | leg :: _ =>
    (f.starting? leg e).toList ++
      if _again : (f.turn leg e now).goesOn = true then
        startedBy (f.turn leg e now).flow none now
      else []
termination_by f.remaining
decreasing_by exact turn_goesOn_lt (by simp [_legs]) _again

/-- The flow with its build put in flight. -/
def takeOff (f : Flow) : Flow :=
  { f with build := { f.build with status := .inFlight } }

/-- Makes a call. The containers that an abort gives are no effects. -/
def call (f : Flow) : Call → Flow × List Effect
  | .start now => f.start now
  | .process e now => f.process e now
  | .abort now => ((f.abort now).1, [])

/-- The stages that a call starts. -/
def started (f : Flow) : Call → List Stage
  | .start now => f.takeOff.startedBy none now
  | .process e now => if f.accepts e then f.startedBy (some e) now else []
  | .abort _ => []

/-- The stages that an event brings to the flow, if it takes any over. -/
def loading? (f : Flow) : Call → Option (List (List Phase))
  | .process e _ =>
    if f.leg? = some .setup ∧ f.aborted = false ∧ f.accepts e ∧ e.isSuccess then e.stages else none
  | .start _ | .abort _ => none

end Flow

/-- A walk along one provider chain. -/
structure Line where
  capability : Capability
  stage : Nat := 0
  index : Nat := 0
  deriving DecidableEq

/-- A command that went out: the line that it belongs to and the address that it went to. -/
structure Posting where
  line : Line
  address : Address
  command : Command
  deriving DecidableEq

/-- A call and what came of it. `begun` counts the stages that were started before, and `started`
has those that this call started. -/
structure Course.Entry where
  before : Flow
  call : Call
  after : Flow
  effects : List Effect
  begun : Nat
  started : List Stage

namespace Course.Entry

/-- The number of the stage that was started last. -/
def stage (n : Entry) : Nat :=
  n.begun + n.started.length - 1

/-- The line that a command belongs to when it goes out while `stage` is running. -/
def lineOf (stage : Nat) (c : Command) : Line :=
  match c.phase with
  | some p => { capability := c.kind, stage, index := p.index }
  | none => { capability := c.kind }

/-- The posting of a command that goes out while `stage` is running. -/
def posting (stage : Nat) (sent : Address × Command) : Posting :=
  { line := lineOf stage sent.2, address := sent.1, command := sent.2 }

/-- The commands that the call sent, in order. -/
def postings (n : Entry) : List Posting :=
  (sends n.effects).map (posting n.stage)

/-- The call hands over an event that the flow accepts and that answers the posting. -/
def Answers (n : Entry) (p : Posting) : Prop :=
  ∃ e now, n.call = .process e now ∧ n.before.accepts e = true ∧
    e.kind = p.command.kind.completion ∧ e.token = p.command.token ∧
    ∀ q, p.command.phase = some q → ∃ patch, e.phase = some patch ∧ patch.index = q.index

/-- The event of the call reports success. -/
def Succeeds (n : Entry) : Prop :=
  ∃ e now, n.call = .process e now ∧ e.isSuccess = true

end Course.Entry

/-- A flow with its past. `plan` has the stages that set-up loaded last. -/
structure Course where
  flow : Flow
  plan : List Stage := []
  entries : List Course.Entry := []

namespace Course

/-- The stages that were started, in order. -/
def begun (c : Course) : List Stage :=
  c.entries.flatMap (·.started)

/-- The entry of a call that is made next. -/
def entry (c : Course) (call : Call) : Entry where
  before := c.flow
  call := call
  after := (c.flow.call call).1
  effects := (c.flow.call call).2
  begun := c.begun.length
  started := c.flow.started call

/-- The course behind a call. -/
def then_ (c : Course) (call : Call) : Course where
  flow := (c.flow.call call).1
  plan :=
    ((c.flow.loading? call).map fun stages => Flow.consecutive 0 (stages.map List.length)).getD
      c.plan
  entries := c.entries ++ [c.entry call]

/-- The commands that went out, in order. -/
def postings (c : Course) : List Posting :=
  c.entries.flatMap (·.postings)

/-- The commands of a line among some entries, in order. -/
def sentOn (l : Line) (entries : List Entry) : List Posting :=
  (entries.flatMap (·.postings)).filter (·.line = l)

/-- What becomes of a flow of a build: it is started, and then handed events and aborted at will. -/
inductive Of (build : Build) (script : Option String) (chains : Chains) : Course → Prop
  | start (now : Moment) : Of build script chains
      (then_ { flow := { build, script, chains } } (.start now))
  | step {c : Course} (of : Of build script chains c) (call : Call) (legal : call.Legal) :
      Of build script chains (c.then_ call)

end Course

/-! ## Driving -/

namespace Flow

/-- What every turn of a call preserves holds behind the call. `P` is about the effects and the
started stages up to a turn and about the flow and the event at it, `Q` about the same when the
flow stops. -/
theorem drive_rule (now : Moment) (P : List Effect → List Stage → Flow → Option Event → Prop)
    (Q : List Effect → List Stage → Flow → Prop)
    (finished : ∀ {done begun f e}, f.legs = [] → P done begun f e → Q done begun f)
    (again : ∀ {done begun f e leg rest}, f.legs = leg :: rest → P done begun f e →
      (f.turn leg e now).goesOn = true →
      P (done ++ (f.turn leg e now).effects) (begun ++ (f.starting? leg e).toList)
        (f.turn leg e now).flow none)
    (stop : ∀ {done begun f e leg rest}, f.legs = leg :: rest → P done begun f e →
      (f.turn leg e now).goesOn = false →
      Q (done ++ (f.turn leg e now).effects) (begun ++ (f.starting? leg e).toList)
        (f.turn leg e now).flow)
    {done : List Effect} {begun : List Stage} {f : Flow} {e : Option Event}
    (h : P done begun f e) :
    Q (done ++ (f.drive e now).2) (begun ++ f.startedBy e now) (f.drive e now).1 := by
  fun_induction drive f e now generalizing done begun with
  | case1 f e legs =>
      unfold startedBy
      split
      · simpa using finished legs h
      · simp_all
  | case2 f e leg rest legs goesOn g effects driven ih =>
      have next := ih (again legs h goesOn)
      rw [driven] at next
      unfold startedBy
      split
      · simp_all
      · rename_i leg' rest' legs'
        obtain ⟨rfl, rfl⟩ : leg' = leg ∧ rest' = rest := by simpa [legs] using legs'.symm
        rw [dif_pos goesOn]
        simpa only [List.append_assoc] using next
  | case3 f e leg rest legs waits =>
      have next := stop legs h (by simpa using waits)
      unfold startedBy
      split
      · simp_all
      · rename_i leg' rest' legs'
        obtain ⟨rfl, rfl⟩ : leg' = leg ∧ rest' = rest := by simpa [legs] using legs'.symm
        rw [dif_neg waits]
        simpa only [List.append_nil] using next

end Flow
end BuildPipeline
