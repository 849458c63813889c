import BuildPipeline.Proofs.Engine.Operations

/-!
Builds are isolated from each other. What becomes of a build is the same whether the operations that
name other builds are carried out or left out (`Engine.isolated`).

Two engines are alike for a build if they differ in the flows and deadlines of other builds only
(`Engine.Like`). An operation that names another build leaves an engine alike
(`Confined.like`); one that names the build does the same in both engines and answers the same
(`Like.named`). Firing deadlines handles those of all builds in one batch, but those of one build
come out of both heaps in the same order, and the rest of the batch leaves the build alone
(`Like.fired`, `Like.onEvents`).
-/

namespace BuildPipeline

open Time (Clock Moment Span)

/-! ## What is seen of a run -/

/-- The store and the containers around an engine. -/
structure Outside where
  store : JournalStore := {}
  tool : ContainerTool := .recorder [] false

/-- The call of the tool for containers that an act makes. -/
def Act.call? : Act → Option ContainerCall
  | .killed ids => some (.kill ids)
  | .deleted ids => some (.delete ids)
  | .sent .. | .published _ | .ended _ => none

/-- The copy of a build that an act publishes. -/
def Act.published? : Act → Option Build
  | .published build => some build
  | .sent .. | .killed _ | .deleted _ | .ended _ => none

namespace Outside

/-- An act reaches the store or the containers. -/
def carryOut (o : Outside) : Act → Outside
  | .published build => { o with store := (o.store.publish build).1 }
  | .killed ids => { o with tool := (o.tool.call (.kill ids)).1 }
  | .deleted ids => { o with tool := (o.tool.call (.delete ids)).1 }
  | .sent .. | .ended _ => o

/-- What a step does to the store and the containers. -/
def follow (o : Outside) (s : Step) : Outside :=
  match s.operation with
  | .storeFailing failing => { o with store := { o.store with failing } }
  | .containersFailing failing => { o with tool := o.tool.setFailing failing }
  | .request _ | .flowEnd _ => s.acts.foldl carryOut o

/-- The store and the containers behind some steps. -/
def after (o : Outside) (steps : List Step) : Outside :=
  steps.foldl follow o

end Outside

/-- An operation names no other build: it names this one, or it is for all. -/
def Operation.concerns (id : BuildId) (op : Operation) : Bool :=
  op.build?.all (· = id)

/-- The calls of the tool for containers that the operations on a build made, in order. -/
def callsFor (id : BuildId) (steps : List Step) : List ContainerCall :=
  (steps.filter (·.operation.concerns id)).flatMap fun s => s.acts.filterMap Act.call?

/-- The answers of the operations that name a build, in order. -/
def answersFor (id : BuildId) (steps : List Step) : List Answer :=
  (steps.filter (·.operation.build? = some id)).map (·.answer)

section Seen

variable (id : BuildId) (s : Step) (steps : List Step)

theorem callsFor_cons : callsFor id (s :: steps) =
    (if s.operation.concerns id then s.acts.filterMap Act.call? else []) ++ callsFor id steps := by
  unfold callsFor
  rw [List.filter_cons]
  split <;> rfl

theorem answersFor_cons : answersFor id (s :: steps) =
    (if s.operation.build? = some id then [s.answer] else []) ++ answersFor id steps := by
  unfold answersFor
  rw [List.filter_cons]
  simp only [decide_eq_true_eq]
  split <;> rfl

end Seen

/-- Two runs are the same for a build. -/
structure SameFor (id : BuildId) (o : Outside) (one two : List Step) (e e' : Engine) : Prop where
  sent : sentFor id one = sentFor id two
  published : (o.after one).store.publishedFor id = (o.after two).store.publishedFor id
  calls : callsFor id one = callsFor id two
  answers : answersFor id one = answersFor id two
  flow : e.flows.get? id = e'.flows.get? id
  live : (e.live id).Perm (e'.live id)

namespace Engine

/-- Two engines differ in the flows and deadlines of other builds only. -/
structure Like (id : BuildId) (e e' : Engine) : Prop where
  frame : e' = { e with flows := e'.flows, deadlines := e'.deadlines }
  flow : e'.flows.get? id = e.flows.get? id
  live : (e'.live id).Perm (e.live id)

section Like

variable {e e' e'' : Engine} {due due' : List Deadline} {id other : BuildId} {acts : List Act}
  {f : Flow} {effects : List Effect} {build : Build} {script : Option String} {first c c' : Course}
  {call : Call} {event : Event} {op : Operation}

theorem Like.refl (id : BuildId) (e : Engine) : Like id e e :=
  ⟨rfl, rfl, .refl _⟩

theorem Like.trans (one : Like id e e') (two : Like id e' e'') : Like id e e'' := by
  refine ⟨?_, two.flow.trans one.flow, two.live.trans one.live⟩
  rw [two.frame, one.frame]

theorem Like.symm (like : Like id e e') : Like id e' e :=
  ⟨by rw [like.frame], like.flow.symm, like.live.symm⟩

/-- What happens to other builds makes no difference. -/
theorem Confined.like (confined : Confined other e e' acts) (ne : id ≠ other) : Like id e e' :=
  ⟨confined.frame, confined.flows id ne, confined.live id ne⟩

theorem Like.desk (like : Like id e e') : e'.desk = e.desk := by
  rw [like.frame]
  rfl

/-! ## Operations that name the build -/

/-- Two engines in which one flow has settled alike are alike. -/
theorem SettledFlow.like {armed left left' : List Deadline} (one : SettledFlow id f armed left e)
    (two : SettledFlow id f armed left' e') (lefts : left'.Perm left)
    (frame : e' = { e with flows := e'.flows, deadlines := e'.deadlines }) : Like id e e' := by
  rcases one with ⟨going, there, live⟩ | ⟨over_, gone, none_⟩
  · rcases two with ⟨-, there', live'⟩ | ⟨over_, -, -⟩
    · exact ⟨frame, there'.trans there.symm, live'.trans ((lefts.append_left _).trans live.symm)⟩
    · cases going.symm.trans over_
  · rcases two with ⟨going, -, -⟩ | ⟨-, gone', none'⟩
    · cases over_.symm.trans going
    · exact ⟨frame, gone'.trans gone.symm, by rw [none_, none']⟩

theorem frame_settle (minds : Minds id f effects [] none) (e : Engine) :
    (e.settle id f effects).1 =
      { e with
        flows := (e.settle id f effects).1.flows
        deadlines := (e.settle id f effects).1.deadlines } := by
  rw [settle_eq minds]
  cases (e.desk.settle f {} effects).ended <;> rfl

/-- What becomes of a flow that an engine settles. -/
def SettlesWith (id : BuildId) (f : Flow) (effects : List Effect) (e : Engine) : Prop :=
  SettledFlow id (e.desk.settle f {} effects).flow
    (e.desk.deadlines (sentBy (e.settle id f effects).2)) (e.live id) (e.settle id f effects).1

/-- A flow that settles does the same in both engines. -/
theorem Like.settle (like : Like id e e') (minds : Minds id f effects [] none)
    (one : e.SettlesWith id f effects) (two : e'.SettlesWith id f effects) :
    (e'.settle id f effects).2 = (e.settle id f effects).2 ∧
      Like id (e.settle id f effects).1 (e'.settle id f effects).1 := by
  have acts : (e'.settle id f effects).2 = (e.settle id f effects).2 := by
    rw [acts_settle minds, acts_settle minds, like.desk]
  unfold SettlesWith at two
  rw [acts, like.desk] at two
  refine ⟨acts, one.like two like.live ?_⟩
  rw [frame_settle minds e', frame_settle minds e, like.frame]

/-- A call on an active flow does the same in both engines. -/
theorem Like.called (like : Like id e e') (orderly : e.Orderly due) (orderly' : e'.Orderly due')
    (at_ : e.flows.get? id = some f) (legal : call.Legal)
    (left : commands effects = commands (f.call call).2)
    (over_ : ends effects = ends (f.call call).2) (own : ∀ x ∈ effects, x.build.id = f.build.id) :
    (e'.settle id (f.call call).1 effects).2 = (e.settle id (f.call call).1 effects).2 ∧
      Like id (e.settle id (f.call call).1 effects).1 (e'.settle id (f.call call).1 effects).1 := by
  have settled : ∀ {e due}, Orderly due e → e.flows.get? id = some f →
      e.SettlesWith id (f.call call).1 effects := by
    intro e due orderly at_
    obtain ⟨-, -, build, script, first, c, rfl, -, same, settlement⟩ :=
      orderly.called at_ legal left over_ own
    unfold SettlesWith
    rw [← same]
    exact settlement.flow
  obtain ⟨build, script, first, rfl, rfl, of, -⟩ := orderly.flows id f at_
  have owns : Flow.Owns first.flow effects (first.flow.call call).1 :=
    ⟨(Flow.owns_call first.flow call).id, own⟩
  exact like.settle (.of_owns owns of.ids.1) (settled orderly at_)
    (settled orderly' (like.flow.trans at_))

theorem Like.onEvent (like : Like event.buildId e e') (orderly : e.Orderly due)
    (orderly' : e'.Orderly due') :
    (e'.onEvent event).2 = (e.onEvent event).2 ∧
      Like event.buildId (e.onEvent event).1 (e'.onEvent event).1 := by
  rcases e.routed_or_idle event with ⟨f, valid, at_⟩ | idle
  · have clock : e'.clock = e.clock := by rw [like.frame]
    obtain ⟨cancelled, -, live⟩ := orderly.answered f event e.clock.now
    obtain ⟨cancelled', -, live'⟩ := orderly'.answered f event e.clock.now
    have like' : Like event.buildId (e.answered f event) (e'.answered f event) := by
      refine ⟨?_, like.flow, ?_⟩
      · rw [like.frame]
        rfl
      · rw [live, live']
        exact like.live.filter _
    have legal : Call.Legal (.process event e.clock.now) := (Event.of_validate valid).2
    obtain ⟨acts, after⟩ := like'.called cancelled cancelled' at_ legal rfl rfl
      (Flow.owns_call f _).own
    rw [onEvent_of_active valid at_, onEvent_of_active valid (like.flow.trans at_), clock]
    exact ⟨by rw [acts], after⟩
  · rw [onEvent_of_idle idle, onEvent_of_idle fun valid => like.flow.trans (idle valid)]
    exact ⟨rfl, like⟩

theorem Like.abort (like : Like id e e') (orderly : e.Orderly due) (orderly' : e'.Orderly due') :
    (e'.abort id).2 = (e.abort id).2 ∧ Like id (e.abort id).1 (e'.abort id).1 := by
  cases at_ : e.flows.get? id with
  | none =>
      rw [abort_of_idle at_, abort_of_idle (like.flow.trans at_)]
      exact ⟨rfl, like⟩
  | some f =>
      have clock : e'.clock = e.clock := by rw [like.frame]
      obtain ⟨left, over_, own⟩ := abortEffects_silent f e.clock.now
      have legal : Call.Legal (.abort e.clock.now) := trivial
      obtain ⟨acts, after⟩ := like.called orderly orderly' at_ legal left over_ own
      rw [abort_of_active at_, abort_of_active (like.flow.trans at_), clock]
      exact ⟨by rw [acts], after⟩

theorem Like.start (like : Like id e e') (orderly : e.Orderly []) (orderly' : e'.Orderly [])
    (b : Build) (script : Option String) :
    (e'.start id b script).2 = (e.start id b script).2 ∧
      Like id (e.start id b script).1 (e'.start id b script).1 := by
  by_cases free : b.status = .parked ∧ e.flows.get? id = none
  · have chains : e'.chains = e.chains := by rw [like.frame]
    have clock : e'.clock = e.clock := by rw [like.frame]
    have none' := like.flow.trans free.2
    obtain ⟨-, -, c, same, one⟩ := orderly.started free.2 b script e.clock.now
    obtain ⟨-, -, c', same', two⟩ := orderly'.started none' b script e.clock.now
    rw [start_of_free free.1 free.2, start_of_free free.1 none', clock]
    rw [chains] at same' two ⊢
    have minds : Minds id _ _ [] none := .of_owns
      (Flow.owns_call (Course.idle { b with id } script e.chains).flow (.start e.clock.now)) rfl
    have flow := one.flow
    have flow' := two.flow
    rw [same] at flow
    rw [same'] at flow'
    obtain ⟨acts, after⟩ := like.settle minds flow flow'
    exact ⟨by rw [acts], after⟩
  · have taken := not_and.1 free
    rw [start_of_refused taken, start_of_refused (like.flow.symm ▸ taken)]
    exact ⟨rfl, like⟩

theorem Like.onFlowEnd {b : Build} (like : Like b.id e e') (orderly : e.Orderly due)
    (orderly' : e'.Orderly due') :
    (e'.onFlowEnd b).2 = (e.onFlowEnd b).2 ∧ Like b.id (e.onFlowEnd b).1 (e'.onFlowEnd b).1 := by
  have same : e'.flows.contains b.id = e.flows.contains b.id := by
    rw [FlowTable.contains, FlowTable.contains, like.flow]
  obtain ⟨-, -, gone, none_⟩ := orderly.drop b.id
  obtain ⟨-, -, gone', none'⟩ := orderly'.drop b.id
  unfold Engine.onFlowEnd
  rw [same]
  split
  · refine ⟨rfl, ?_, gone'.trans gone.symm, ?_⟩
    · rw [like.frame]
    · exact .of_eq (none'.trans none_.symm)
  · exact ⟨rfl, like⟩

/-- An operation that names the build does the same in both engines. -/
theorem Like.named (like : Like id e e') (orderly : e.Orderly []) (orderly' : e'.Orderly [])
    (names : op.build? = some id) :
    (e'.step op).acts = (e.step op).acts ∧ (e'.step op).answer = (e.step op).answer ∧
      Like id (e.step op).after (e'.step op).after := by
  cases Operation.names names with
  | start _ build script =>
      obtain ⟨same, after⟩ := like.start orderly orderly' build script
      have acts := congrArg Prod.fst same
      have answer := congrArg Answer.routed (congrArg Prod.snd same)
      exact ⟨acts, answer, after⟩
  | event event =>
      obtain ⟨same, after⟩ := like.onEvent orderly orderly'
      have acts := congrArg Prod.fst same
      have answer := congrArg Answer.routed (congrArg Prod.snd same)
      exact ⟨acts, answer, after⟩
  | abort =>
      obtain ⟨same, after⟩ := like.abort orderly orderly'
      have acts := congrArg Prod.fst same
      have answer := congrArg Answer.aborted (congrArg Prod.snd same)
      exact ⟨acts, answer, after⟩
  | delete build => exact ⟨rfl, rfl, like⟩
  | flowEnd build =>
      obtain ⟨same, after⟩ := like.onFlowEnd orderly orderly'
      exact ⟨same, rfl, after⟩

/-! ## Deadlines that fire -/

/-- All that was done in some steps, in order. -/
def actsOf (steps : List Step) : List Act :=
  steps.flatMap (·.acts)

theorem actsOf_cons (s : Step) (steps : List Step) :
    actsOf (s :: steps) = s.acts ++ actsOf steps :=
  rfl

/-- The acts that are about a build. -/
def actsFor (id : BuildId) (acts : List Act) : List Act :=
  acts.filter fun a => a.build?.any (·.id = id)

theorem actsFor_append (id : BuildId) (acts more : List Act) :
    actsFor id (acts ++ more) = actsFor id acts ++ actsFor id more :=
  List.filter_append ..

theorem actsFor_eq_nil (within : ∀ a ∈ acts, a.Within other) (ne : id ≠ other) :
    actsFor id acts = [] := by
  refine List.filter_eq_nil_iff.2 fun a mem about => ?_
  obtain ⟨b, told, own⟩ := Option.any_eq_true _ _ |>.1 about
  exact ne ((of_decide_eq_true own).symm.trans (within a mem b told))

/-- Of the deadlines that fire, those of a build come in the same order. -/
theorem Like.fired (like : Like id e e') (orderly : e.Orderly due) (orderly' : e'.Orderly due')
    (now : Nat) :
    (e'.deadlines.poll now).1.filter (·.buildId = id) =
        (e.deadlines.poll now).1.filter (·.buildId = id) ∧
      Like id { e with deadlines := (e.deadlines.poll now).2 }
        { e' with deadlines := (e'.deadlines.poll now).2 } := by
  have one := orderly.sound.poll now
  have two := orderly'.sound.poll now
  have swap : ∀ (p : Deadline → Bool) (s : Deadlines),
      (s.live.filter p).filter (·.buildId = id) = (s.live.filter (·.buildId = id)).filter p := by
    intro p s
    rw [List.filter_filter, List.filter_filter]
    exact List.filter_congr fun d _ => Bool.and_comm _ _
  have mine : ((e.deadlines.poll now).1.filter (·.buildId = id)).Perm
      ((e.live id).filter (·.fireAt ≤ now)) :=
    (one.fired.filter _).trans (.of_eq (swap _ _))
  have mine' : ((e'.deadlines.poll now).1.filter (·.buildId = id)).Perm
      ((e.live id).filter (·.fireAt ≤ now)) :=
    (two.fired.filter _).trans ((List.Perm.of_eq (swap _ _)).trans (like.live.filter _))
  refine ⟨(mine'.trans mine.symm).eq_of_pairwise ?_ (two.sorted.filter _) (one.sorted.filter _),
    ?_, like.flow, ?_⟩
  · -- the order tells deadlines of different pairs apart, and every pair has one live deadline
    intro a b mem mem' ab ba
    have live : ∀ d ∈ (e.live id).filter (·.fireAt ≤ now), d ∈ e.deadlines.live :=
      fun d mem => (List.mem_filter.1 (List.mem_filter.1 mem).1).1
    exact orderly.sound.live_inj (live a (mine'.mem_iff.1 mem)) (live b (mine.mem_iff.1 mem'))
      (Deadline.key_eq_of_le_of_le ab ba)
  · rw [like.frame]
  · have left := (one.left.filter (·.buildId = id)).trans (.of_eq (swap _ _))
    have left' := (two.left.filter (·.buildId = id)).trans (.of_eq (swap _ _))
    exact left'.trans ((like.live.filter _).trans left.symm)

/-- A batch of events does to a build what its own events do. -/
theorem Like.onEvents (like : Like id e e') (orderly : e.Orderly due) (orderly' : e'.Orderly due')
    (events : List Event) :
    actsFor id (e'.onEvents (events.filter (·.buildId = id))).2 =
        actsFor id (e.onEvents events).2 ∧
      Like id (e.onEvents events).1 (e'.onEvents (events.filter (·.buildId = id))).1 := by
  induction events generalizing e e' with
  | nil => exact ⟨rfl, like⟩
  | cons event events ih =>
      have moves := orderly.onEvent event
      rw [onEvents_cons, actsFor_append]
      by_cases own : event.buildId = id
      · subst own
        obtain ⟨same, after⟩ := like.onEvent orderly orderly'
        obtain ⟨acts, last⟩ := ih after moves.orderly (orderly'.onEvent event).orderly
        rw [List.filter_cons_of_pos (by simp)]
        rw [onEvents_cons, actsFor_append, same, acts]
        exact ⟨rfl, last⟩
      · have untouched := (moves.confined.like (Ne.symm own)).symm.trans like
        obtain ⟨acts, last⟩ := ih untouched moves.orderly orderly'
        have none_ := actsFor_eq_nil moves.confined.within (Ne.symm own)
        rw [List.filter_cons_of_neg (by simpa using own)]
        rw [acts, none_, List.nil_append]
        exact ⟨rfl, last⟩

theorem Like.fire (like : Like id e e') (orderly : e.Orderly []) (orderly' : e'.Orderly []) :
    actsFor id e'.fireDeadlines.2.1 = actsFor id e.fireDeadlines.2.1 ∧
      Like id e.fireDeadlines.1 e'.fireDeadlines.1 := by
  have elapsed : e'.clock.elapsed.nanos = e.clock.elapsed.nanos := by rw [like.frame]
  obtain ⟨same, polled⟩ := like.fired orderly orderly' e.clock.elapsed.nanos
  have one := orderly.polled e.clock.elapsed.nanos
  have two := orderly'.polled e.clock.elapsed.nanos
  have events : ∀ fired : List Deadline, (fired.map Deadline.expiredEvent).filter (·.buildId = id) =
      (fired.filter (·.buildId = id)).map Deadline.expiredEvent := fun _ => List.filter_map
  obtain ⟨acts, after⟩ := polled.onEvents one two
    ((e.deadlines.poll e.clock.elapsed.nanos).1.map Deadline.expiredEvent)
  obtain ⟨acts', after'⟩ := (Like.refl id _).onEvents two two
    ((e'.deadlines.poll e.clock.elapsed.nanos).1.map Deadline.expiredEvent)
  rw [events] at acts acts' after after'
  rw [same] at acts' after'
  unfold Engine.fireDeadlines
  rw [elapsed]
  exact ⟨acts'.symm.trans acts, after.trans after'.symm⟩

/-- An operation that names no build does the same for the build in both engines. -/
theorem Like.unnamed (like : Like id e e') (orderly : e.Orderly []) (orderly' : e'.Orderly [])
    (unnamed : op.build? = none) :
    actsFor id (e'.step op).acts = actsFor id (e.step op).acts ∧
      Like id (e.step op).after (e'.step op).after := by
  cases op with
  | request r =>
      cases r with
      | start => cases unnamed
      | event => cases unnamed
      | abort => cases unnamed
      | delete => cases unnamed
      | advance by_ =>
          refine ⟨rfl, ?_, like.flow, like.live⟩
          rw [like.frame]
          rfl
      | close address =>
          refine ⟨rfl, ?_, like.flow, like.live⟩
          rw [like.frame]
          rfl
      | fire => exact like.fire orderly orderly'
  | flowEnd => cases unnamed
  | storeFailing => exact ⟨rfl, like⟩
  | containersFailing => exact ⟨rfl, like⟩

/-! ## Runs -/

/-- Settling a flow calls no tool. -/
theorem calls_settle (minds : Minds id f effects [] none) (e : Engine) :
    (e.settle id f effects).2.filterMap Act.call? = [] := by
  have untold : ∀ {a : Act}, a.About id → a.call? = none := by
    rintro a ⟨b, told, -⟩
    cases a with
    | killed => cases told
    | deleted => cases told
    | sent => rfl
    | published => rfl
    | ended => rfl
  refine List.filterMap_eq_nil_iff.2 fun a mem => ?_
  rw [acts_settle minds] at mem
  rcases List.mem_append.1 mem with done | told
  · exact untold ((minds.settle e.desk {}).acts a done)
  · obtain ⟨b, -, rfl⟩ := Option.map_eq_some_iff.1 (Option.mem_toList.1 told)
    rfl

theorem Orderly.calls_onEvents (orderly : e.Orderly due) (events : List Event) :
    (e.onEvents events).2.filterMap Act.call? = [] := by
  induction events generalizing e with
  | nil => rfl
  | cons event events ih =>
      have rest := ih (orderly.onEvent event).orderly
      have first : (e.onEvent event).2.1.filterMap Act.call? = [] := by
        rcases e.routed_or_idle event with ⟨f, valid, at_⟩ | idle
        · obtain ⟨build, script, c, own, rfl, of, -⟩ := orderly.flows _ f at_
          rw [onEvent_of_active valid at_]
          exact calls_settle (.of_owns (Flow.owns_call c.flow _) (of.ids.1.trans own)) _
        · rw [onEvent_of_idle idle]
          rfl
      rw [onEvents_cons, List.filterMap_append, first, rest]
      rfl

/-- What names no build calls no tool. -/
theorem Orderly.calls_of_unnamed (orderly : e.Orderly []) (unnamed : op.build? = none) :
    (e.step op).acts.filterMap Act.call? = [] := by
  rcases e.perform_of_unnamed unnamed with rfl | ⟨clock, mailboxes, same⟩
  · exact (orderly.polled _).calls_onEvents _
  · rw [Engine.step, same]
    rfl

theorem concerns_iff : op.concerns id = true ↔ op.build? = none ∨ op.build? = some id := by
  unfold Operation.concerns
  cases op.build? <;> simp

/-- A step that is taken in both runs. -/
theorem Like.step (like : Like id e e') (orderly : e.Orderly []) (orderly' : e'.Orderly [])
    (concerns : op.concerns id = true) :
    Like id (e.step op).after (e'.step op).after ∧
      actsFor id (e'.step op).acts = actsFor id (e.step op).acts ∧
      (e'.step op).acts.filterMap Act.call? = (e.step op).acts.filterMap Act.call? ∧
      (op.build? = some id → (e'.step op).answer = (e.step op).answer) := by
  rcases concerns_iff.1 concerns with unnamed | names
  · obtain ⟨acts, after⟩ := like.unnamed orderly orderly' unnamed
    refine ⟨after, acts, ?_, fun names => by cases unnamed.symm.trans names⟩
    rw [orderly.calls_of_unnamed unnamed, orderly'.calls_of_unnamed unnamed]
  · obtain ⟨acts, answer, after⟩ := like.named orderly orderly' names
    exact ⟨after, by rw [acts], by rw [acts], fun _ => answer⟩

/-- Leaving out what names other builds makes no difference for a build. -/
theorem Like.run (like : Like id e e') (orderly : e.Orderly []) (orderly' : e'.Orderly [])
    (ops : List Operation) :
    Like id (e.after ops) (e'.after (ops.filter (·.concerns id))) ∧
      actsFor id (actsOf (e'.run (ops.filter (·.concerns id)))) = actsFor id (actsOf (e.run ops)) ∧
      callsFor id (e'.run (ops.filter (·.concerns id))) = callsFor id (e.run ops) ∧
      answersFor id (e'.run (ops.filter (·.concerns id))) = answersFor id (e.run ops) := by
  induction ops generalizing e e' with
  | nil => exact ⟨like, rfl, rfl, rfl⟩
  | cons op ops ih =>
      have next := orderly.step op
      rw [run_cons, actsOf_cons, actsFor_append, callsFor_cons, answersFor_cons]
      by_cases concerns : op.concerns id = true
      · obtain ⟨after, acts, calls, answer⟩ := like.step orderly orderly' concerns
        obtain ⟨last, rest⟩ := ih after next (orderly'.step op)
        rw [List.filter_cons_of_pos concerns, run_cons, actsOf_cons, actsFor_append, callsFor_cons,
          answersFor_cons, acts, rest.1, rest.2.1, rest.2.2]
        refine ⟨last, rfl, ?_, ?_⟩
        · change (if op.concerns id then _ else _) ++ _ = (if op.concerns id then _ else _) ++ _
          rw [calls]
        · change (if op.build? = some id then _ else _) ++ _ =
            (if op.build? = some id then _ else _) ++ _
          split
          · rename_i names
            rw [answer names]
          · rfl
      · obtain ⟨some_, other⟩ := not_or.1 (concerns_iff.not.1 concerns)
        obtain ⟨named, names⟩ := Option.ne_none_iff_exists'.1 some_
        have ne : id ≠ named := fun same => other (same ▸ names)
        have confined := (orderly.named names).confined
        obtain ⟨last, rest⟩ := ih ((confined.like ne).symm.trans like) next orderly'
        rw [List.filter_cons_of_neg concerns, actsFor_eq_nil confined.within ne, rest.1, rest.2.1,
          rest.2.2]
        refine ⟨last, rfl, ?_, ?_⟩
        · change _ = (if op.concerns id then _ else _) ++ _
          rw [if_neg concerns, List.nil_append]
        · change _ = (if op.build? = some id then _ else _) ++ _
          rw [if_neg other, List.nil_append]

end Like
end Engine

/-! ## The store and the tool -/

section Outside

variable (id : BuildId) (e : Engine) (o : Outside) (ops : List Operation) (acts : List Act)
  (steps : List Step)

theorem sentFor_eq :
    sentFor id steps = (Engine.actsFor id (Engine.actsOf steps)).filterMap Act.sent? := by
  rw [sentFor, ofBuild, ← List.filterMap_flatMap, List.filter_filterMap, Engine.actsFor,
    List.filterMap_filter]
  refine List.filterMap_congr fun a _ => ?_
  cases a with
  | sent address command => simp [Act.sent?, Act.build?, Option.filter]
  | published => simp [Act.sent?]
  | killed => rfl
  | deleted => rfl
  | ended => simp [Act.sent?]

/-- The copies among some acts that are of a build. -/
theorem publishedFor_eq :
    (acts.filterMap Act.published?).filter (·.id = id) =
      (Engine.actsFor id acts).filterMap Act.published? := by
  rw [List.filter_filterMap, Engine.actsFor, List.filterMap_filter]
  refine List.filterMap_congr fun a _ => ?_
  cases a with
  | published build => simp [Act.published?, Act.build?, Option.filter]
  | sent => simp [Act.published?]
  | killed => rfl
  | deleted => rfl
  | ended => simp [Act.published?]

theorem store_carryOut :
    (acts.foldl Outside.carryOut o).store.published =
      o.store.published ++ acts.filterMap Act.published? := by
  induction acts generalizing o with
  | nil => exact (List.append_nil _).symm
  | cons a acts ih =>
      refine (ih (o.carryOut a)).trans ?_
      cases a with
      | published build =>
          exact List.append_assoc o.store.published [build] (acts.filterMap Act.published?)
      | sent => rfl
      | killed => rfl
      | deleted => rfl
      | ended => rfl

/-- The store has taken every copy that was published, whether it failed or not. -/
theorem published_after :
    (o.after (e.run ops)).store.published =
      o.store.published ++ (Engine.actsOf (e.run ops)).filterMap Act.published? := by
  induction ops generalizing e o with
  | nil => exact (List.append_nil _).symm
  | cons op ops ih =>
      have first : (o.follow (e.step op)).store.published =
          o.store.published ++ (e.step op).acts.filterMap Act.published? := by
        cases op with
        | request r => exact store_carryOut o _
        | flowEnd build => exact store_carryOut o _
        | storeFailing failing => exact (List.append_nil _).symm
        | containersFailing failing => exact (List.append_nil _).symm
      rw [Engine.run_cons, Engine.actsOf_cons, List.filterMap_append, ← List.append_assoc, ← first]
      exact ih _ _

theorem tool_carryOut {calls : List ContainerCall} {failing : Bool}
    (recorder : o.tool = .recorder calls failing) :
    (acts.foldl Outside.carryOut o).tool =
      .recorder (calls ++ acts.filterMap Act.call?) failing := by
  induction acts generalizing o calls with
  | nil => rw [List.filterMap_nil, List.append_nil]; exact recorder
  | cons a acts ih =>
      have call : ∀ c, (o.tool.call c).1 = .recorder (calls ++ [c]) failing := by
        rw [recorder]
        exact fun _ => rfl
      cases a with
      | killed ids =>
          have next := ih (o.carryOut (.killed ids)) (call _)
          rwa [List.append_assoc] at next
      | deleted ids =>
          have next := ih (o.carryOut (.deleted ids)) (call _)
          rwa [List.append_assoc] at next
      | sent => exact ih o recorder
      | published => exact ih _ recorder
      | ended => exact ih o recorder

/-- A tool that records has every call that was made, whether it failed or not. -/
theorem recorded_after {calls : List ContainerCall} {failing : Bool}
    (recorder : o.tool = .recorder calls failing) :
    (o.after (e.run ops)).tool.calls =
      calls ++ (Engine.actsOf (e.run ops)).filterMap Act.call? := by
  induction ops generalizing e o calls failing with
  | nil =>
      have same : (o.after []).tool = .recorder calls failing := recorder
      rw [Engine.run, same]
      exact (List.append_nil _).symm
  | cons op ops ih =>
      have first : ∃ failing', (o.follow (e.step op)).tool =
          .recorder (calls ++ (e.step op).acts.filterMap Act.call?) failing' := by
        have none_ : calls = calls ++ ([] : List Act).filterMap Act.call? :=
          (List.append_nil calls).symm
        cases op with
        | request r => exact ⟨failing, tool_carryOut o _ recorder⟩
        | flowEnd build => exact ⟨failing, tool_carryOut o _ recorder⟩
        | storeFailing =>
            exact ⟨failing, recorder.trans (congrArg (ContainerTool.recorder · failing) none_)⟩
        | containersFailing failing' =>
            have set_ : o.tool.setFailing failing' = .recorder calls failing' := by
              rw [recorder]
              rfl
            exact ⟨failing', set_.trans (congrArg (ContainerTool.recorder · failing') none_)⟩
      obtain ⟨failing', next⟩ := first
      rw [Engine.run_cons, Engine.actsOf_cons, List.filterMap_append, ← List.append_assoc]
      exact ih _ _ next

end Outside

namespace Engine

/-- Builds are isolated from each other. Leaving out the operations that name other builds makes no
difference to a build. The same commands are sent for it and the same copies of it are published,
the same calls are made of the tool for containers, the operations that name it have the same
answers, and in the end its flow and its live deadlines are the same. -/
theorem isolated (chains : Chains) (mailboxes : Mailboxes) (stepTimeout : Option Span)
    (clock : Clock) (o : Outside) (ops : List Operation) (id : BuildId) :
    let e : Engine := { chains, mailboxes, stepTimeout, clock }
    let own := ops.filter (·.concerns id)
    SameFor id o (e.run ops) (e.run own) (e.after ops) (e.after own) := by
  intro e own
  have orderly := orderly_new chains mailboxes stepTimeout clock
  obtain ⟨like, acts, calls, answers⟩ := (Like.refl id e).run orderly orderly ops
  refine ⟨?_, ?_, calls.symm, answers.symm, like.flow.symm, like.live.symm⟩
  · rw [sentFor_eq, sentFor_eq, acts]
  · rw [JournalStore.publishedFor, JournalStore.publishedFor, published_after, published_after,
      List.filter_append, List.filter_append, publishedFor_eq, publishedFor_eq, acts]

end Engine
end BuildPipeline
