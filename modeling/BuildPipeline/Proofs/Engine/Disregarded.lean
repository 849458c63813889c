import BuildPipeline.Proofs.Engine.Isolation
import BuildPipeline.Proofs.Engine.Lives
import BuildPipeline.Proofs.Flow.Aborting
import BuildPipeline.Proofs.Flow.Updates

/-!
What an engine refuses or ignores leaves it as it was. A build that cannot be started, an event that
is not routed or that the flow does not take, and an abort that comes too late or again
(`Engine.Disregards`) change neither the engine nor the store nor the containers, and send nothing.
They are the only starts, events and aborts that do so (`Engine.disregards_iff`).

A flow stays aborted until its build is started again (`Engine.Halted`), so all aborts after the
first are ignored.
-/

namespace BuildPipeline

open Time (Moment Span)

/-! ## Events that a flow does not take -/

/-- An update that the flow takes over: it tells the container of a phase of the running stage, with
a token that was issued for this phase. -/
structure Flow.Qualifies (f : Flow) (event : Event) : Prop where
  update : event.kind = .phaseUpdate
  going : f.ended = false
  on : f.leg? = some .run
  success : event.isSuccess = true
  issued : ∃ patch, event.phase = some patch ∧ patch.hasContainer = true ∧
    f.issuedFor patch.index event.token = true

section Flows

variable {f : Flow} {event : Event} {build : Build} {script : Option String} {chains : Chains}
  {c : Course}

/-- An event that is not accepted and is no update to take over changes nothing. -/
theorem Flow.process_of_unqualified (rejected : f.accepts event = false)
    (unqualified : ¬f.Qualifies event) (now : Moment) : f.process event now = (f, []) := by
  unfold Flow.process
  split
  · rfl
  · rename_i going
    split
    · rename_i update
      unfold Flow.updatePhase
      split
      · rfl
      · rename_i patch phase
        have fails : ¬(event.isSuccess = true ∧ patch.hasContainer = true ∧
            f.leg? = some .run ∧ f.issuedFor patch.index event.token = true) :=
          fun ⟨success, container, on, issued⟩ => unqualified
            ⟨update, by simpa using going, on, success, patch, phase, container, issued⟩
        rw [if_neg fails]
    · rw [rejected]
      rfl

/-- An update that is taken over is published. -/
theorem Course.Unchecked.process_of_qualified (run : Course.Unchecked build script chains c)
    (qualifies : c.flow.Qualifies event) (now : Moment) :
    ∃ g : Flow, c.flow.process event now = (g, [g.snapshot]) := by
  obtain ⟨patch, phase, container, issued⟩ := qualifies.issued
  obtain ⟨position, -, taken⟩ := run.process_of_issued qualifies.on qualifies.update
    qualifies.success phase container issued now
  exact ⟨_, taken⟩

theorem Flow.aborted_abort (f : Flow) (now : Moment) : (f.abort now).1.aborted = true := by
  unfold Flow.abort
  split
  · assumption
  · rfl

end Flows

/-! ## Operations that move nothing -/

/-- The operation asks the engine for something about one build. -/
def Operation.asks : Operation → Bool
  | .request (.start ..) | .request (.event _) | .request (.abort _) => true
  | .request _ | .flowEnd _ | .storeFailing _ | .containersFailing _ => false

/-- The step leaves the engine as it was, and nothing reaches the providers, the store or the
containers. -/
structure Step.Unmoved (s : Step) : Prop where
  engine : s.after = s.before
  silent : s.acts = []
  outside : ∀ o : Outside, o.follow s = o

namespace Engine

/-- What an engine refuses or ignores. -/
inductive Disregards (e : Engine) : Operation → Prop
  /-- It is answered by a refusal. -/
  | refused {op : Operation} (why : Refusal) (answer : (e.step op).answer = .routed (.error why)) :
      Disregards e op
  /-- The flow does not accept the event, and does not take it over as an update. -/
  | unaccepted {event : Event} {f : Flow} (at_ : e.flows.get? event.buildId = some f)
      (rejected : f.accepts event = false) (unqualified : ¬f.Qualifies event) :
      Disregards e (.request (.event event))
  | inactive {id : BuildId} (none_ : e.flows.get? id = none) :
      Disregards e (.request (.abort id))
  | repeated {id : BuildId} {f : Flow} (at_ : e.flows.get? id = some f)
      (aborted : f.aborted = true) : Disregards e (.request (.abort id))

section Disregards

variable {e e' : Engine} {id : BuildId} {f : Flow} {effects : List Effect} {op : Operation}
  {event : Event} {b : Build} {handed sent : List (Address × Command)}

theorem settle_nil (e : Engine) (id : BuildId) (f : Flow) :
    e.settle id f [] = ({ e with flows := e.flows.put id f }, []) := by
  simp only [Engine.settle, Desk.settle]

theorem settle_publish (e : Engine) (id : BuildId) (f : Flow) (b : Build) :
    e.settle id f [.publish b] = ({ e with flows := e.flows.put id f }, [.published b]) := by
  simp only [Engine.settle, Desk.settle]

/-- A flow that is where it was. -/
theorem settle_same (at_ : e.flows.get? id = some f) : e.settle id f [] = (e, []) := by
  have same : e.flows.put id f = e.flows :=
    congrArg FlowTable.mk (Keyed.put_of_get? at_)
  rw [settle_nil, same]

theorem onEvent_of_unaccepted (valid : event.validate = .ok ())
    (at_ : e.flows.get? event.buildId = some f) (rejected : f.accepts event = false)
    (unqualified : ¬f.Qualifies event) : e.onEvent event = (e, [], .ok ()) := by
  have spared : e.answered f event = e := by
    unfold Engine.answered
    rw [rejected]
    rfl
  have same : f.call (.process event e.clock.now) = (f, []) :=
    Flow.process_of_unqualified rejected unqualified _
  rw [onEvent_of_active valid at_, spared, same, settle_same at_]

theorem abort_of_repeated (at_ : e.flows.get? id = some f) (aborted : f.aborted = true) :
    e.abort id = (e, [], some ⟨[], f.build⟩) := by
  have same : f.abort e.clock.now = (f, []) := Flow.abort_of_aborted aborted _
  have quiet : abortEffects f e.clock.now = [] := if_pos aborted
  have call : (f.call (.abort e.clock.now)).1 = f := congrArg Prod.fst same
  rw [abort_of_active at_, quiet, call, same, settle_same at_]
  rfl

theorem handle_of_idle
    (none_ : event.validate = .ok () → e.flows.get? event.buildId = none) :
    e.handle (.event event) = (e, [], .routed (.error (eventRefusal event))) := by
  simp only [handle, onEvent_of_idle none_]

theorem unmoved_of_request {r : Request} {answer : Answer}
    (same : e.handle r = (e, [], answer)) : (e.step (.request r)).Unmoved := by
  have acts : (e.step (.request r)).acts = [] := congrArg (·.2.1) same
  refine ⟨congrArg (·.1) same, acts, fun o => ?_⟩
  change (e.step (.request r)).acts.foldl Outside.carryOut o = o
  rw [acts]
  rfl

/-- Starts and events are all that is answered by a refusal, and a refusal moves nothing. -/
theorem unmoved_of_refused {why : Refusal} (answer : (e.step op).answer = .routed (.error why)) :
    op.asks = true ∧ (e.step op).Unmoved := by
  cases op with
  | request r =>
      cases r with
      | start id b script =>
          have taken : b.status = .parked → e.flows.get? id ≠ none := by
            intro parked none_
            simp only [Engine.step, perform, handle, start_of_free parked none_] at answer
            cases answer
          have same : e.handle (.start id b script) =
              (e, [], .routed (.error (startRefusal id b))) := by
            simp only [handle, start_of_refused taken]
          exact ⟨rfl, unmoved_of_request same⟩
      | event event =>
          rcases e.routed_or_idle event with ⟨f, valid, at_⟩ | idle
          · simp only [Engine.step, perform, handle, onEvent_of_active valid at_] at answer
            cases answer
          · exact ⟨rfl, unmoved_of_request (handle_of_idle idle)⟩
      | abort => cases answer
      | delete => cases answer
      | advance => cases answer
      | fire => cases answer
      | close => cases answer
  | flowEnd => cases answer
  | storeFailing => cases answer
  | containersFailing => cases answer

/-- What is refused or ignored moves nothing. -/
theorem Disregards.unmoved (disregards : e.Disregards op) :
    op.asks = true ∧ (e.step op).Unmoved := by
  cases disregards with
  | refused why answer => exact unmoved_of_refused answer
  | @unaccepted event f at_ rejected unqualified =>
      by_cases valid : event.validate = .ok ()
      · have same : e.handle (.event event) = (e, [], .routed (.ok ())) := by
          simp only [handle, onEvent_of_unaccepted valid at_ rejected unqualified]
        exact ⟨rfl, unmoved_of_request same⟩
      · exact ⟨rfl, unmoved_of_request (handle_of_idle fun valid' => absurd valid' valid)⟩
  | @inactive id none_ =>
      have same : e.handle (.abort id) = (e, [], .aborted none) := by
        simp only [handle, abort_of_idle none_]
      exact ⟨rfl, unmoved_of_request same⟩
  | @repeated id f at_ aborted =>
      have same : e.handle (.abort id) = (e, [], .aborted (some ⟨[], f.build⟩)) := by
        simp only [handle, abort_of_repeated at_ aborted]
      exact ⟨rfl, unmoved_of_request same⟩

/-! ## Everything else moves something -/

/-- A flow that is filed under a build that had none stays, or its end is announced. -/
theorem settle_moves (minds : Minds id f effects [] none) (none_ : e.flows.get? id = none)
    (same : (e.settle id f effects).1 = e) : (e.settle id f effects).2 ≠ [] := by
  rw [settle_eq minds] at same ⊢
  split at same
  · have there := congrArg (fun e : Engine => e.flows.get? id) same
    simp only [keep, FlowTable.get?_put, none_] at there
    cases there
  · exact List.append_ne_nil_of_right_ne_nil _ (List.cons_ne_nil _ _)

theorem Orderly.disregards (orderly : e.Orderly []) (asks : op.asks = true)
    (unmoved : (e.step op).Unmoved) : e.Disregards op := by
  have same : (e.perform op).1 = e := unmoved.engine
  have silent : (e.perform op).2.1 = [] := unmoved.silent
  cases op with
  | request r =>
      cases r with
      | start id b script =>
          by_cases free : b.status = .parked ∧ e.flows.get? id = none
          · simp only [perform, handle, start_of_free free.1 free.2] at same silent
            have minds := Minds.of_owns
              (Flow.owns_call (Course.idle { b with id } script e.chains).flow
                (.start e.clock.now)) rfl
            exact absurd silent (settle_moves minds free.2 same)
          · refine .refused (startRefusal id b) ?_
            simp only [Engine.step, perform, handle, start_of_refused (not_and.1 free)]
      | event event =>
          rcases e.routed_or_idle event with ⟨f, valid, at_⟩ | idle
          · cases accepted : f.accepts event with
            | true =>
                have waits := Accepts.waits ⟨valid, f, at_, accepted⟩ orderly
                obtain ⟨g, there, waits⟩ := waits
                have there' : (e.onEvent event).1.flows.get? event.buildId = some g :=
                  same.symm ▸ there
                exact absurd waits (orderly.settled_of_accepted valid at_ accepted there')
            | false =>
                refine .unaccepted at_ accepted fun qualifies => ?_
                obtain ⟨build, script, c, -, rfl, of, -⟩ := orderly.flows _ f at_
                obtain ⟨g, taken⟩ := of.unchecked.process_of_qualified qualifies e.clock.now
                have call : c.flow.call (.process event e.clock.now) = (g, [.publish g.build]) :=
                  taken
                simp only [perform, handle, onEvent_of_active valid at_, call,
                  settle_publish] at silent
                cases silent
          · refine .refused (eventRefusal event) ?_
            simp only [Engine.step, perform, handle, onEvent_of_idle idle]
      | abort id =>
          cases at_ : e.flows.get? id with
          | none => exact .inactive at_
          | some f =>
              cases aborted : f.aborted with
              | true => exact .repeated at_ aborted
              | false =>
                  have told : abortEffects f e.clock.now =
                      [.publish (f.abort e.clock.now).1.build] := by
                    unfold abortEffects
                    rw [aborted]
                    rfl
                  simp only [perform, handle, abort_of_active at_, told, settle_publish] at silent
                  cases silent
      | delete => cases asks
      | advance => cases asks
      | fire => cases asks
      | close => cases asks
  | flowEnd => cases asks
  | storeFailing => cases asks
  | containersFailing => cases asks

/-! ## Aborts after the first -/

/-- The flow of a build is aborted, if it has one. -/
def Halted (id : BuildId) (e : Engine) : Prop :=
  ∀ f, e.flows.get? id = some f → f.aborted = true

/-- The flow of a build that is aborted is filed as it is then. -/
theorem flows_abort (at_ : e.flows.get? id = some f) :
    (e.abort id).1.flows = e.flows.put id (f.abort e.clock.now).1 := by
  rw [abort_of_active at_]
  unfold abortEffects
  split
  · exact congrArg (·.1.flows) (settle_nil e id _)
  · exact congrArg (·.1.flows) (settle_publish e id _ _)

theorem halted_abort (e : Engine) (id : BuildId) : Halted id (e.abort id).1 := by
  intro g there
  cases at_ : e.flows.get? id with
  | none =>
      rw [abort_of_idle at_] at there
      cases at_.symm.trans there
  | some f =>
      rw [flows_abort at_, FlowTable.get?_put] at there
      cases there
      exact f.aborted_abort _

/-- What is aborted stays so until the build is started again. -/
theorem Halted.unstarted (halted : Halted id e) (run : UnstartedRun id e e' handed sent) :
    Halted id e' := by
  induction run with
  | stay e => exact halted
  | apart same rest ih => exact ih fun f there => halted f (same ▸ there)
  | call moves dealt rest ih =>
      refine ih fun g there => ?_
      cases dealt.deals with
      | nothing silent same => exact halted g (same g there)
      | @more f was numbers minted =>
          cases moves.turned with
          | idle same => exact halted g (same ▸ there)
          | called own was' settlement =>
              cases was.symm.trans was'
              obtain ⟨ended, handled⟩ := settlement.handled
              rcases settlement.flow with ⟨-, at_, -⟩ | ⟨-, gone, -⟩
              · cases (own ▸ at_).symm.trans there
                by_contra live
                have still := handled.aborted (Bool.eq_false_of_not_eq_true live)
                rw [halted _ was] at still
                cases still
              · cases (own ▸ gone).symm.trans there
          | begun own none_ => cases was.symm.trans none_
          | dropped gone => cases gone.symm.trans there

/-- A build that was aborted since it was started is halted. -/
theorem Orderly.halted (orderly : e.Orderly []) {ops : List Operation} {s : Step}
    (since : s ∈ sinceStart id (e.run ops)) (earlier : s.operation = .request (.abort id)) :
    Halted id (e.after ops) := by
  induction ops using List.reverseRecOn with
  | nil => cases since
  | append_singleton ops op ih =>
      rw [run_append, sinceStart_append] at since
      rw [after_append]
      cases starts : ((e.after ops).step op).starts id with
      | true =>
          obtain ⟨b, script, rfl, -⟩ := starts_iff.1 starts
          rw [if_pos starts, List.mem_singleton] at since
          subst since
          cases earlier
      | false =>
          rw [starts, if_neg Bool.false_ne_true] at since
          rcases List.mem_append.1 since with old | last
          · exact (ih old).unstarted ((orderly.after ops).unstartedRun_step starts)
          · rw [List.mem_singleton] at last
            subst last
            obtain rfl : op = .request (.abort id) := earlier
            exact halted_abort _ id

/-- What the engine refuses or ignores leaves everything as it was, and nothing else does, of all
starts, events and aborts in any run. An abort of a build that was aborted since it was started last
is ignored. -/
theorem disregards_iff (chains : Chains) (mailboxes : Mailboxes) (stepTimeout : Option Span)
    (clock : Time.Clock) (ops : List Operation) :
    let e : Engine := { chains, mailboxes, stepTimeout, clock }
    (∀ op, (e.after ops).Disregards op ↔
        op.asks = true ∧ ((e.after ops).step op).Unmoved) ∧
      ∀ id, ∀ s ∈ sinceStart id (e.run ops), s.operation = .request (.abort id) →
        (e.after ops).Disregards (.request (.abort id)) := by
  intro e
  have new : e.Orderly [] := orderly_new chains mailboxes stepTimeout clock
  refine ⟨fun op => ⟨Disregards.unmoved, fun ⟨asks, unmoved⟩ =>
    (new.after ops).disregards asks unmoved⟩, fun id s since earlier => ?_⟩
  have halted := new.halted since earlier
  cases at_ : (e.after ops).flows.get? id with
  | none => exact .inactive at_
  | some f => exact .repeated at_ (halted f at_)

end Disregards
end Engine
end BuildPipeline
