import BuildPipeline.Proofs.Engine.Publishing

/-!
How flows end. From its start on a flow is active until its end is announced, and the announcement
comes once. The flow is gone then with all its deadlines, and the copy of its build that was
published last is the one that it ended with (`Engine.Accounted`, `Engine.Orderly.accounted`).

`Engine.FlowState` says how the flow of a build stands in a run; what is asked of the engine takes
it from one place to the next (`FlowState.step`, `flowState_start`).
-/

namespace BuildPipeline

open Time (Clock Moment Span)

/-- A flow is of the build of an id, it told the builds in `told` to have ended with, and it asked
for nothing behind an end. -/
def Flow.Ran (id : BuildId) (chains : Chains) (told : List Build) (f : Flow) : Prop :=
  ∃ build script c, build.id = id ∧ f = c.flow ∧ Course.Of build script chains c ∧
    ends c.effects = told ∧ Flow.Closes c.effects

namespace Engine

/-- How the flow of a build stands. `life` has what was done since the build was started last. -/
inductive FlowState (id : BuildId) (e : Engine) (begun : Prop) (life : List Act) : Prop
  | idle (unstarted : ¬begun) (none_ : e.flows.get? id = none) (silent : endsFor id life = [])
  | active (f : Flow) (started : begun) (there : e.flows.get? id = some f)
      (silent : endsFor id life = [])
      (known : f.aborted = true ∨ f.ended = true → (copiesFor id life).getLast? = some f.build)
  | closed (f : Flow) (started : begun) (gone : e.flows.get? id = none)
      (ran : f.Ran id e.chains [f.build]) (ended : f.ended = true)
      (announced : endsFor id life = [f.build])
      (known : (copiesFor id life).getLast? = some f.build)

/-- How a build stands behind some steps. It is active if it was started and its end was not
announced since; then its flow is filed under the id of its build and has told no end. When an end
is announced it is the only one, the copy that was published last is of the build that the flow
ended with, and neither the flow nor a deadline of it is left. -/
structure Accounted (id : BuildId) (steps : List Step) (e : Engine) : Prop where
  active : id ∈ e.activeFlows ↔
    (∃ s ∈ steps, s.starts id = true) ∧ endsFor id (actsOf (sinceStart id steps)) = []
  filed : ∀ f, e.flows.get? id = some f → f.build.id = id ∧ f.ended = false ∧ f.Ran id e.chains []
  ended : ∀ b ∈ endsFor id (actsOf (sinceStart id steps)),
    (∃ s ∈ steps, s.starts id = true) ∧ endsFor id (actsOf (sinceStart id steps)) = [b] ∧
      (copiesFor id (actsOf (sinceStart id steps))).getLast? = some b ∧
      (∃ f : Flow, f.Ran id e.chains [b] ∧ f.ended = true ∧ f.build = b) ∧
      e.flows.get? id = none ∧ ∀ d ∈ e.set_, d.buildId ≠ id

section FlowState

variable {e e' : Engine} {due : List Deadline} {id : BuildId} {life acts : List Act} {first : Flow}
  {begun : Prop} {untold : Flow → Prop} {r : Request} {b : Build}

theorem FlowState.congr {begun' : Prop} (state : FlowState id e begun life)
    (same : begun ↔ begun') :
    FlowState id e begun' life :=
  propext same ▸ state

/-- What comes of a flow that was active. -/
theorem FlowAfterCall.flowState (result : FlowAfterCall id untold first e.chains e' acts)
    (chains_eq : e'.chains = e.chains) (started : begun) (silent : endsFor id life = [])
    (known : first.aborted = true ∨ first.ended = true →
      (copiesFor id life).getLast? = some first.build) :
    FlowState id e' begun (life ++ acts) := by
  cases result with
  | active g there published silent' =>
      refine .active g started there ?_ fun over_ => ?_
      · rw [endsFor_append, silent, silent']
        rfl
      · rw [copiesFor_append]
        exact published.closing known over_
  | @ends build script c own of ended last gone published announced =>
      refine .closed c.flow started gone ?_ ended ?_ ?_
      · exact chains_eq ▸ ⟨build, script, c, own, rfl, of, last, of.closes⟩
      · rw [endsFor_append, silent, announced]
        rfl
      · rw [copiesFor_append]
        exact published.closing known (.inr ended)

theorem Orderly.chains_onEvents (orderly : e.Orderly due) (events : List Event) :
    (e.onEvents events).1.chains = e.chains := by
  induction events generalizing e with
  | nil => rfl
  | cons event events ih =>
      have moves := orderly.onEvent event
      have first : (e.onEvent event).1.chains = e.chains := by rw [moves.confined.frame]
      rw [onEvents_cons]
      exact (ih moves.orderly).trans first

/-- The chains stay. -/
theorem Orderly.chains_step (orderly : e.Orderly []) (op : Operation) :
    (e.step op).after.chains = e.chains := by
  cases names : op.build? with
  | some id => rw [(orderly.named names).confined.frame]
  | none =>
      rcases e.perform_of_unnamed names with rfl | ⟨clock, mailboxes, same⟩
      · exact (orderly.polled e.clock.elapsed.nanos).chains_onEvents _
      · rw [Engine.step, same]

/-- What is asked of the engine takes a flow on, unless it starts the build. -/
theorem FlowState.step (state : FlowState id e begun life) (orderly : e.Orderly [])
    (old : (e.step (.request r)).starts id = false) :
    FlowState id (e.step (.request r)).after begun (life ++ (e.step (.request r)).acts) := by
  have chains_eq := orderly.chains_step (.request r)
  cases state with
  | idle unstarted none_ silent =>
      obtain ⟨none_', -, silent'⟩ := orderly.idle_step r none_ old
      refine .idle unstarted none_' ?_
      rw [endsFor_append, silent, silent']
      rfl
  | active f started there silent known =>
      exact (orderly.flowAfterCall_step r there).flowState chains_eq started silent known
  | closed f started gone ran ended announced known =>
      obtain ⟨gone', copies, silent⟩ := orderly.idle_step r gone old
      refine .closed f started gone' (chains_eq ▸ ran) ended ?_ ?_
      · rw [endsFor_append, announced, silent]
        rfl
      · rw [copiesFor_append, copies, List.append_nil, known]

/-- A build that is started. -/
theorem flowState_start (orderly : e.Orderly []) (starts : (e.step (.request r)).starts id = true)
    (started : begun) :
    FlowState id (e.step (.request r)).after begun (e.step (.request r)).acts := by
  have chains_eq := orderly.chains_step (.request r)
  obtain ⟨b, script, called, parked, none_⟩ := starts_iff.1 starts
  cases called
  have silent : endsFor id [] = [] := rfl
  refine (flowAfterCall_start parked none_ script).flowState chains_eq started silent ?_
  rintro (aborted | ended)
  · cases aborted
  · cases ended

/-! ## Runs -/

theorem actsOf_append (steps more : List Step) :
    actsOf (steps ++ more) = actsOf steps ++ actsOf more :=
  List.flatMap_append

/-- How the flow of a build stands behind a run. -/
theorem Orderly.flowState (orderly : e.Orderly []) (none_ : e.flows.get? id = none)
    (rs : List Request) :
    FlowState id (e.after (rs.map .request)) (∃ s ∈ e.run (rs.map .request), s.starts id = true)
      (actsOf (sinceStart id (e.run (rs.map .request)))) := by
  induction rs using List.reverseRecOn with
  | nil => exact .idle (by rintro ⟨s, mem, -⟩; cases mem) none_ rfl
  | append_singleton rs r ih =>
      have orderly' := orderly.after (rs.map .request)
      have one : actsOf [(e.after (rs.map .request)).step (.request r)] =
          ((e.after (rs.map .request)).step (.request r)).acts := List.flatMap_singleton ..
      rw [List.map_append, List.map_singleton, run_append, after_append, sinceStart_append]
      -- a start begins a new life of the build, whatever became of the old one
      cases starts : ((e.after (rs.map .request)).step (.request r)).starts id with
      | true =>
          rw [if_pos rfl, one]
          refine flowState_start orderly' starts ⟨_, List.mem_append_right _ ?_, starts⟩
          exact List.mem_singleton.2 rfl
      | false =>
          rw [if_neg Bool.false_ne_true, actsOf_append, one]
          refine (ih.step orderly' starts).congr ?_
          simp [List.mem_append, or_and_right, exists_or, starts]

/-- How a build stands, told from how its flow does. -/
theorem FlowState.accounted {steps : List Step} (orderly : e.Orderly [])
    (state : FlowState id e (∃ s ∈ steps, s.starts id = true) (actsOf (sinceStart id steps))) :
    Accounted id steps e := by
  have filed : ∀ f, e.flows.get? id = some f →
      f.build.id = id ∧ f.ended = false ∧ f.Ran id e.chains [] := fun f there => by
    have going := orderly.going id f there
    obtain ⟨build, script, c, own, rfl, of, -⟩ := orderly.flows id f there
    exact ⟨of.ids.1.trans own, going, build, script, c, own, rfl, of, of.endless going, of.closes⟩
  cases state with
  | idle unstarted none_ silent =>
      refine ⟨?_, filed, fun b mem => ?_⟩
      · rw [mem_activeFlows, none_]
        simp [unstarted]
      · rw [silent] at mem
        cases mem
  | active f started there silent known =>
      refine ⟨?_, filed, fun b mem => ?_⟩
      · exact iff_of_true (mem_activeFlows.2 ⟨f, there⟩) ⟨started, silent⟩
      · rw [silent] at mem
        cases mem
  | closed f started gone ran ended announced known =>
      refine ⟨?_, filed, fun b mem => ?_⟩
      · rw [mem_activeFlows, gone, announced]
        simp
      · rw [announced, List.mem_singleton] at mem
        subst mem
        exact ⟨started, announced, known, ⟨f, ran, ended, rfl⟩, gone, (orderly.bare gone).1⟩

/-- How a build stands behind a run. -/
theorem Orderly.accounted (orderly : e.Orderly []) (none_ : e.flows.get? id = none)
    (rs : List Request) :
    Accounted id (e.run (rs.map .request)) (e.after (rs.map .request)) :=
  (orderly.flowState none_ rs).accounted (orderly.after _)

end FlowState
end Engine
end BuildPipeline
