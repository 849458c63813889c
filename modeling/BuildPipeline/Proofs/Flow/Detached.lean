import BuildPipeline.Proofs.Flow.Aborting
import BuildPipeline.Proofs.Flow.Alike

/-!
No turn looks at the containers of the phases. Flows that are the same but for containers therefore
stay so when the same thing happens to them, and what they ask of their host is the same but for the
containers in the builds that it carries (`Flow.detached_call`).

Everything is told as an equation between things without containers, one for each part of a turn.
Two flows without containers are equal just if they differ in a list of phases that is the same
without containers (`Flow.exists_phases`), which is how the equations are opened.
-/

namespace BuildPipeline

open Time (Moment)

/-- The change to a phase does not look at its container. -/
def Phase.Blind (change : Phase → Phase) : Prop :=
  ∀ p : Phase, (change p.detached).detached = (change p).detached

/-- A phase that is not over gets a status. -/
theorem Phase.blind_settle (s : Status) :
    Phase.Blind fun p => if p.status.isCancellable then { p with status := s } else p := by
  intro p
  have status : p.detached.status = p.status := rfl
  simp only [status]
  split <;> rfl

theorem Phase.blind_passedRun (patch : PhasePatch) : Phase.Blind (Flow.passedRun patch) := by
  intro p
  unfold Flow.passedRun
  split <;> rfl

/-- The build without the containers of its phases. -/
def Build.detached (b : Build) : Build :=
  { b with phases := b.phases.map (·.detached) }

/-- The command without the containers of phases. -/
def Command.detached (c : Command) : Command :=
  { c with build := c.build.detached, phase := c.phase.map (·.detached) }

/-- The effect without the containers of phases. -/
def Effect.detached : Effect → Effect
  | .dispatch address command => .dispatch address command.detached
  | .publish build => .publish build.detached
  | .finish build => .finish build.detached

/-- The flow without the containers of phases. -/
def Flow.detached (f : Flow) : Flow :=
  { f with build := f.build.detached }

/-- What comes of a call, without the containers of phases. -/
def detachedOutcome (r : Flow × List Effect) : Flow × List Effect :=
  (r.1.detached, r.2.map (·.detached))

/-- The turn without the containers of phases. -/
def Turn.detached (t : Turn) : Turn :=
  ⟨t.flow.detached, t.effects.map (·.detached), t.goesOn⟩

section Parts

variable {all all' : List Phase} {b c : Build} {f g : Flow} {t u : Turn} {e : Event}

/-! ## Phases and builds -/

theorem detached_getElem? (same : all.map (·.detached) = all'.map (·.detached)) (i : Nat) :
    all[i]?.map (·.detached) = all'[i]?.map (·.detached) := by
  rw [← List.getElem?_map, same, List.getElem?_map]

theorem detached_length (same : all.map (·.detached) = all'.map (·.detached)) :
    all.length = all'.length := by
  simpa using congrArg List.length same

/-- A change that does not look at containers keeps phases the same without them. -/
theorem detached_modify (same : all.map (·.detached) = all'.map (·.detached)) (position : Nat)
    {change : Phase → Phase} (blind : Phase.Blind change) :
    (all.modify position change).map (·.detached) =
      (all'.modify position change).map (·.detached) := by
  have through : ∀ all : List Phase, (all.modify position change).map (·.detached) =
      (all.map (·.detached)).modify position fun p => (change p).detached := by
    intro all
    refine List.ext_getElem? fun i => ?_
    simp only [List.getElem?_map, List.getElem?_modify]
    cases all[i]? with
    | none => rfl
    | some p => by_cases here : position = i <;> simp [here, blind p]
  rw [through, through, same]

/-- A change to all phases that does not look at containers keeps them the same without them. -/
theorem detached_map (same : all.map (·.detached) = all'.map (·.detached))
    {change : Phase → Phase} (blind : Phase.Blind change) :
    (all.map change).map (·.detached) = (all'.map change).map (·.detached) := by
  have through : ∀ all : List Phase, (all.map change).map (·.detached) =
      (all.map (·.detached)).map fun p => (change p).detached := by
    intro all
    rw [List.map_map, List.map_map]
    exact List.map_congr_left fun p _ => (blind p).symm
  rw [through, through, same]

theorem Stage.holds_detached (same : all.map (·.detached) = all'.map (·.detached)) (s : Stage)
    {P : Phase → Prop} (blind : ∀ p : Phase, P p.detached ↔ P p) :
    s.Holds all P ↔ s.Holds all' P := by
  have through : ∀ {all all' : List Phase}, all.map (·.detached) = all'.map (·.detached) →
      s.Holds all P → s.Holds all' P := by
    intro all all' same holds position mem p at_
    have there := detached_getElem? same position
    rw [at_] at there
    obtain ⟨q, at_q, own⟩ := Option.map_eq_some_iff.1 there
    have own' : q.detached = p.detached := own
    exact (blind p).1 (own' ▸ (blind q).2 (holds position mem q at_q))
  exact ⟨through same, through same.symm⟩

/-- The flow with other phases in its build. -/
def Flow.withPhases (f : Flow) (all : List Phase) : Flow :=
  { f with build := { f.build with phases := all } }

theorem Flow.exists_phases (same : f.detached = g.detached) :
    ∃ all, g = f.withPhases all ∧ f.build.phases.map (·.detached) = all.map (·.detached) := by
  obtain ⟨b, _⟩ := f
  obtain ⟨b', _⟩ := g
  cases b
  cases b'
  simp only [Flow.detached, Build.detached, Flow.mk.injEq, Build.mk.injEq] at same
  obtain ⟨⟨rfl, rfl, rfl, phases, rfl, rfl, rfl, rfl, rfl⟩, rfl, rfl, rfl, rfl, rfl, rfl, rfl,
    rfl, rfl, rfl⟩ := same
  exact ⟨_, rfl, phases⟩

theorem Flow.detached_modifyPhase (same : f.detached = g.detached) (position : Nat)
    (change : Phase → Phase) (blind : Phase.Blind change) :
    (f.modifyPhase position change).detached = (g.modifyPhase position change).detached := by
  obtain ⟨all, rfl, phases⟩ := Flow.exists_phases same
  simp only [Flow.detached, Build.detached, Flow.modifyPhase, Flow.withPhases,
    detached_modify phases position blind]

namespace Flow

theorem aborted_of_detached (same : f.detached = g.detached) : f.aborted = g.aborted := by
  have aborted := congrArg Flow.aborted same
  exact aborted

theorem legs_of_detached (same : f.detached = g.detached) : f.legs = g.legs := by
  have legs := congrArg Flow.legs same
  exact legs

theorem detached_snapshot (same : f.detached = g.detached) :
    f.snapshot.detached = g.snapshot.detached := by
  have build := congrArg Flow.build same
  exact congrArg Effect.publish build

/-- What does not look at the build keeps flows the same without containers. -/
theorem detached_update (same : f.detached = g.detached) (change : Flow → Flow)
    (blind : ∀ h : Flow, (change h.detached) = (change h).detached) :
    (change f).detached = (change g).detached := by
  rw [← blind, ← blind, same]

/-! ## Set-up and tear-down -/

theorem detached_commandStep (same : f.detached = g.detached) (leg : Leg) :
    (f.commandStep leg).detached = (g.commandStep leg).detached := by
  obtain ⟨all, rfl, phases⟩ := exists_phases same
  cases next : f.chains.address? leg.capability f.dispatched with
  | none =>
      rw [commandStep_of_none leg next, commandStep_of_none (f := f.withPhases all) leg next]
      simp only [Turn.detached, Turn.again, leaveLeg, withPhases, detached, Build.detached, phases]
  | some a =>
      rw [commandStep_of_address leg next, commandStep_of_address (f := f.withPhases all) leg next]
      cases leg <;>
        simp [Turn.detached, Turn.wait, commanded, withPhases, detached, Build.detached, phases,
          Effect.detached, stepCommand, Command.setup, Command.tearDown, Command.detached,
          nextToken]

theorem detached_adopt (same : f.detached = g.detached) (e : Event) :
    (f.adopt e).detached = (g.adopt e).detached := by
  obtain ⟨all, rfl, phases⟩ := exists_phases same
  unfold adopt
  cases e.stages with
  | none => simp only [loadStages?, withPhases, detached, Build.detached, phases]
  | some stages => rfl

theorem detached_failBuild (same : f.detached = g.detached) (e : Event) (now : Moment) :
    (f.failBuild e now).detached = (g.failBuild e now).detached := by
  obtain ⟨all, rfl, phases⟩ := exists_phases same
  have settled := detached_map phases (Phase.blind_settle .failed)
  simp only [failBuild, Build.markFailed, Build.settlePhases, withPhases, detached, Build.detached,
    settled]

theorem detached_takeStep (same : f.detached = g.detached) (e : Event) (now : Moment) :
    (f.takeStep e now).1.detached = (g.takeStep e now).1.detached ∧
      (f.takeStep e now).2.1.map (·.detached) = (g.takeStep e now).2.1.map (·.detached) ∧
      (f.takeStep e now).2.2 = (g.takeStep e now).2.2 := by
  unfold takeStep
  rw [aborted_of_detached same]
  split
  · exact ⟨same, rfl, rfl⟩
  · split
    · have adopted := detached_adopt same e
      exact ⟨adopted, congrArg ([·]) (detached_snapshot adopted), rfl⟩
    · have failed := detached_failBuild same e now
      exact ⟨failed, congrArg ([·]) (detached_snapshot failed), rfl⟩

theorem detached_behind (same : t.detached = u.detached) {early late : List Effect}
    (effects : early.map (·.detached) = late.map (·.detached)) :
    (t.behind early).detached = (u.behind late).detached := by
  obtain ⟨flow, more, goesOn⟩ := Turn.mk.inj same
  simp only [Turn.detached, Turn.behind, List.map_append, flow, effects, more, goesOn]

theorem detached_turn_mk (same : f.detached = g.detached) {early late : List Effect}
    (effects : early.map (·.detached) = late.map (·.detached)) (goesOn : Bool) :
    (⟨f, early, goesOn⟩ : Turn).detached = (⟨g, late, goesOn⟩ : Turn).detached := by
  simp only [Turn.detached, same, effects]

theorem detached_clearStep (same : f.detached = g.detached) :
    f.clearStep.detached = g.clearStep.detached :=
  detached_update same clearStep fun _ => rfl

theorem detached_leaveLeg (same : f.detached = g.detached) :
    f.leaveLeg.detached = g.leaveLeg.detached :=
  detached_update same leaveLeg fun _ => rfl

theorem detached_finish (same : f.detached = g.detached) :
    f.finish.detached = g.finish.detached :=
  detached_update same finish fun _ => rfl

theorem detached_setupTurn (same : f.detached = g.detached) (now : Moment) (e : Option Event) :
    (f.setupTurn now e).detached = (g.setupTurn now e).detached := by
  cases e with
  | none => exact detached_commandStep same .setup
  | some e =>
      have taken := detached_takeStep (detached_clearStep same) e now
      simp only [Flow.setupTurn]
      generalize f.clearStep.takeStep e now = taken_f at taken
      generalize g.clearStep.takeStep e now = taken_g at taken
      obtain ⟨f', effects, ok⟩ := taken_f
      obtain ⟨g', effects', ok'⟩ := taken_g
      obtain ⟨same', told, rfl⟩ := taken
      cases ok with
      | true => exact detached_behind (detached_commandStep same' .setup) told
      | false =>
          refine detached_turn_mk (detached_leaveLeg ?_) told true
          exact detached_update same' (fun h => { h with legs := h.legs.tail }) fun _ => rfl

theorem detached_conclude (same : f.detached = g.detached) (now : Moment) :
    (f.conclude now).detached = (g.conclude now).detached := by
  obtain ⟨all, rfl, phases⟩ := exists_phases same
  have every : f.build.phases.all (·.status == .done) = all.all (·.status == .done) := by
    have through : ∀ all : List Phase,
        (all.map (·.detached)).all (·.status == .done) = all.all (·.status == .done) := by
      intro all
      simp [Function.comp_def, Phase.detached]
    rw [← through, phases, through]
  have marked : (f.build.markComplete now).detached =
      ((f.withPhases all).build.markComplete now).detached := by
    simp only [Build.detached, Build.markComplete, withPhases, phases, every]
    congr
  have build := congrArg Flow.build same
  have status : (f.withPhases all).build.status = f.build.status := rfl
  have aborted : (f.withPhases all).aborted = f.aborted := rfl
  unfold Flow.conclude
  rw [status, aborted]
  split
  · refine detached_turn_mk (detached_finish ?_) ?_ false
    · exact congrArg (fun b => { f with build := b }) marked
    · exact congrArg (fun b => [Effect.publish b, .finish b]) marked
  · refine detached_turn_mk (detached_finish same) ?_ false
    exact congrArg (fun b => [Effect.finish b]) build

theorem detached_goOnTearDown (same : f.detached = g.detached) (now : Moment) :
    (f.goOnTearDown now).detached = (g.goOnTearDown now).detached := by
  have more : f.dispatched < f.chains.count .tearDown ↔
      g.dispatched < g.chains.count .tearDown := by
    obtain ⟨all, rfl, -⟩ := exists_phases same
    rfl
  unfold Flow.goOnTearDown
  simp only [more]
  split
  · exact detached_commandStep same .tearDown
  · exact detached_conclude same now

theorem detached_tearDownTurn (same : f.detached = g.detached) (now : Moment)
    (e : Option Event) : (f.tearDownTurn now e).detached = (g.tearDownTurn now e).detached := by
  cases e with
  | none => exact detached_goOnTearDown same now
  | some e =>
      have taken := detached_takeStep (detached_clearStep same) e now
      simp only [Flow.tearDownTurn]
      generalize f.clearStep.takeStep e now = taken_f at taken
      generalize g.clearStep.takeStep e now = taken_g at taken
      obtain ⟨f', effects, ok⟩ := taken_f
      obtain ⟨g', effects', ok'⟩ := taken_g
      obtain ⟨same', told, rfl⟩ := taken
      cases ok with
      | true => exact detached_behind (detached_goOnTearDown same' now) told
      | false =>
          refine detached_turn_mk (detached_finish same') ?_ false
          have build := congrArg Flow.build same'
          rw [List.map_append, List.map_append, told]
          exact congrArg (fun b => _ ++ [Effect.finish b]) build

/-! ## The run -/

theorem detached_canceledAt (b : Build) (positions : List Nat) :
    (canceledAt b positions).detached = canceledAt b.detached positions := by
  simp only [Build.detached, canceledAt, Build.mk.injEq, true_and, and_true]
  refine List.ext_getElem? fun i => ?_
  simp only [List.getElem?_map, List.getElem?_mapIdx]
  cases b.phases[i]? with
  | none => rfl
  | some p =>
      simp only [Option.map_some]
      split <;> rfl

theorem detached_checkStage (same : f.detached = g.detached) (stage : Stage) :
    (f.checkStage stage).detached = (g.checkStage stage).detached := by
  obtain ⟨all, rfl, phases⟩ := exists_phases same
  have over_ := stage.holds_detached phases (P := (·.finalResult.isTerminal = true))
    fun _ => Iff.rfl
  have done_ := stage.holds_detached phases (P := (·.finalResult = .done)) fun _ => Iff.rfl
  by_cases complete : stage.Holds f.build.phases (·.finalResult.isTerminal = true)
  · by_cases done : stage.Holds f.build.phases (·.finalResult = .done)
    · rw [checkStage_of_successful done,
        checkStage_of_successful (f := f.withPhases all) (done_.1 done)]
      simp only [Turn.detached, Turn.again, withPhases, detached, Build.detached, phases,
        List.map_cons, List.map_nil, Effect.detached]
    · rw [checkStage_of_failed complete done,
        checkStage_of_failed (f := f.withPhases all) (over_.1 complete) (mt done_.2 done)]
      have canceled : (canceledAt f.build (f.stages.tail.flatMap (·.members))).detached =
          (canceledAt (f.withPhases all).build (f.stages.tail.flatMap (·.members))).detached := by
        rw [detached_canceledAt, detached_canceledAt]
        exact congrArg (canceledAt · _) (congrArg Flow.build same)
      simp only [Turn.detached, Turn.again, detached, List.map_cons, List.map_nil,
        Effect.detached, canceled]
      rfl
  · rw [checkStage_of_incomplete complete,
      checkStage_of_incomplete (f := f.withPhases all) (mt over_.2 complete)]
    exact detached_turn_mk same rfl false

theorem detached_commandPhase (same : f.detached = g.detached) (index position : Nat) :
    detachedOutcome (f.commandPhase index position) =
      detachedOutcome (g.commandPhase index position) := by
  obtain ⟨all, rfl, phases⟩ := exists_phases same
  have there := detached_getElem? phases position
  have sent : (f.withPhases all).sent index = f.sent index := rfl
  unfold Flow.commandPhase
  rw [sent]
  cases next : f.chains.address? .runPhase (f.sent index) with
  | none =>
      have next' : (f.withPhases all).chains.address? .runPhase (f.sent index) = none := next
      simp only [next']
      exact congrArg (·, []) same
  | some a =>
      have next' : (f.withPhases all).chains.address? .runPhase (f.sent index) = some a := next
      have phases' : (f.withPhases all).build.phases[position]? = all[position]? := rfl
      rw [next', phases']
      cases at_ : f.build.phases[position]? with
      | none =>
          rw [at_] at there
          have none_ : all[position]? = none := Option.map_eq_none_iff.1 there.symm
          rw [none_]
          exact congrArg (·, []) same
      | some p =>
          rw [at_] at there
          obtain ⟨q, at_q, own⟩ := Option.map_eq_some_iff.1 there.symm
          have own' : q.detached = p.detached := own
          have build := congrArg Flow.build same
          have build' : (f.withPhases all).build.detached = f.build.detached := build.symm
          rw [at_q]
          simp only [detachedOutcome, List.map_cons, List.map_nil, Effect.detached,
            Command.detached, Command.runPhase, Option.map_some, own', build', Prod.mk.injEq]
          exact ⟨congrArg (fun b => { f with
            build := b
            lanes := f.lanes.modify index (Lane.command · f.nextToken)
            minted := f.minted + 1 }) build, rfl⟩

theorem detached_startPhase (same : f.detached = g.detached) (index position : Nat) :
    detachedOutcome (f.startPhase index position) =
      detachedOutcome (g.startPhase index position) := by
  have begun := detached_modifyPhase same position (·.beginRun index) fun _ => rfl
  obtain ⟨all, rfl, phases⟩ := exists_phases same
  have length : (f.withPhases all).build.phases.length = f.build.phases.length :=
    (detached_length phases).symm
  have chains : (f.withPhases all).chains = f.chains := rfl
  unfold Flow.startPhase
  rw [length, chains]
  split
  · split
    · exact congrArg (·, []) (detached_modifyPhase begun position _ fun _ => rfl)
    · exact detached_commandPhase begun index position
  · exact congrArg (·, []) same

theorem detached_startPhases (same : f.detached = g.detached) (index : Nat)
    (positions : List Nat) :
    detachedOutcome (f.startPhases index positions) =
      detachedOutcome (g.startPhases index positions) := by
  induction positions generalizing f g index with
  | nil => exact congrArg (·, []) same
  | cons position positions ih =>
      obtain ⟨flow, told⟩ := Prod.mk.inj (detached_startPhase same index position)
      obtain ⟨flow', told'⟩ := Prod.mk.inj (ih flow (index + 1))
      simp only [Flow.startPhases, detachedOutcome, List.map_append, flow', told, told']

theorem detached_startStage (same : f.detached = g.detached) (stage : Stage) :
    detachedOutcome (f.startStage stage) = detachedOutcome (g.startStage stage) := by
  have opened : (f.armed stage).detached = (g.armed stage).detached :=
    detached_update same (·.armed stage) fun _ => rfl
  obtain ⟨flow, told⟩ := Prod.mk.inj (detached_startPhases opened 0 stage.members)
  have last := detached_snapshot flow
  rw [startStage_eq, startStage_eq]
  simp only [detachedOutcome, List.map_append, List.map_cons, List.map_nil, fanOut, flow, told,
    last]

theorem detached_adoptChild (same : f.detached = g.detached) (child : Option Repository) :
    (f.adoptChild child).detached = (g.adoptChild child).detached := by
  cases child with
  | none => exact same
  | some child => exact detached_update same (·.adoptChild (some child)) fun _ => rfl

theorem detached_clearLane (same : f.detached = g.detached) (index : Nat) :
    (f.clearLane index).detached = (g.clearLane index).detached :=
  detached_update same (·.clearLane index) fun _ => rfl

theorem detached_phaseFailed (same : f.detached = g.detached) (stage : Stage) (position : Nat)
    (e : Event) :
    (f.phaseFailed stage position e).detached = (g.phaseFailed stage position e).detached := by
  have marked := detached_modifyPhase same position failedRun fun _ => rfl
  have told := detached_update marked (fun h => { h with
    build := { h.build with statusMessage := e.statusMessage <|> h.build.statusMessage } })
    fun _ => rfl
  exact detached_behind (detached_checkStage told stage) (congrArg ([·]) (detached_snapshot told))

theorem detached_phasePassed (same : f.detached = g.detached) (stage : Stage)
    (index position : Nat) (patch : PhasePatch) :
    (f.phasePassed stage index position patch).detached =
      (g.phasePassed stage index position patch).detached := by
  have marked := detached_modifyPhase same position _ (Phase.blind_passedRun patch)
  have sent : f.sent index = g.sent index ∧ f.chains = g.chains := by
    obtain ⟨all, rfl, -⟩ := exists_phases same
    exact ⟨rfl, rfl⟩
  unfold Flow.phasePassed
  rw [sent.1, sent.2]
  split
  · exact detached_checkStage (detached_modifyPhase marked position _ fun _ => rfl) stage
  · have begun := detached_modifyPhase marked position (·.beginRun index) fun _ => rfl
    obtain ⟨flow, told⟩ := Prod.mk.inj (detached_commandPhase begun index position)
    exact detached_turn_mk flow told false

theorem detached_takePhase (same : f.detached = g.detached) (stage : Stage) (e : Event) :
    (f.takePhase stage e).detached = (g.takePhase stage e).detached := by
  unfold Flow.takePhase
  cases e.phase with
  | none => exact detached_turn_mk same rfl false
  | some patch =>
      have cleared := detached_clearLane same patch.index
      simp only
      cases stage.position? patch.index with
      | none => exact detached_turn_mk cleared rfl false
      | some position =>
          have adopted := detached_adoptChild cleared e.childRepository
          obtain ⟨all, eq, phases⟩ := exists_phases adopted
          have length := congrArg (·.build.phases.length) eq
          have length' := length.trans (detached_length phases).symm
          simp only [length']
          split
          · split
            · exact detached_phasePassed adopted stage patch.index position patch
            · exact detached_phaseFailed adopted stage position e
          · exact detached_turn_mk adopted rfl false

theorem detached_runTurn (same : f.detached = g.detached) (e : Option Event) :
    (f.runTurn e).detached = (g.runTurn e).detached := by
  have queue : f.stages = g.stages := by
    have stages := congrArg Flow.stages same
    exact stages
  unfold Flow.runTurn
  rw [queue]
  cases g.stages with
  | nil => exact detached_turn_mk (detached_leaveLeg same) rfl true
  | cons stage rest =>
      cases e with
      | none =>
          obtain ⟨flow, told⟩ := Prod.mk.inj (detached_startStage same stage)
          exact detached_behind (detached_checkStage flow stage) told
      | some e => exact detached_takePhase same stage e

/-! ## Calls -/

theorem detached_turn (same : f.detached = g.detached) (leg : Leg) (e : Option Event)
    (now : Moment) : (f.turn leg e now).detached = (g.turn leg e now).detached := by
  unfold Flow.turn
  rw [aborted_of_detached same]
  split
  · exact detached_turn_mk (detached_leaveLeg same) rfl true
  · cases leg with
    | setup => exact detached_setupTurn same now e
    | run => exact detached_runTurn same e
    | tearDown => exact detached_tearDownTurn same now e

theorem detached_drive (same : f.detached = g.detached) (e : Option Event) (now : Moment) :
    detachedOutcome (f.drive e now) = detachedOutcome (g.drive e now) := by
  fun_induction Flow.drive f e now generalizing g with
  | case1 f e legs =>
      rw [drive_of_over e now ((legs_of_detached same).symm.trans legs)]
      exact congrArg (·, []) same
  | case2 f e leg rest legs goesOn f' effects driven ih =>
      have legs' := (legs_of_detached same).symm.trans legs
      obtain ⟨flow, told, on⟩ := Turn.mk.inj (detached_turn same leg e now)
      have later := ih flow
      rw [driven] at later
      obtain ⟨flow', told'⟩ := Prod.mk.inj later
      rw [drive_of_legs now legs', if_pos (on.symm.trans goesOn)]
      simp only [detachedOutcome, List.map_append, flow', told, told']
  | case3 f e leg rest legs waits =>
      have legs' := (legs_of_detached same).symm.trans legs
      obtain ⟨flow, told, on⟩ := Turn.mk.inj (detached_turn same leg e now)
      rw [drive_of_legs now legs', if_neg (on ▸ waits)]
      exact Prod.ext flow told

/-- An update is heeded or not whatever containers there are. -/
theorem detached_updatePhase (same : f.detached = g.detached) (e : Event) :
    detachedOutcome (f.updatePhase e) = detachedOutcome (g.updatePhase e) := by
  obtain ⟨all, rfl, phases⟩ := exists_phases same
  have leg : (f.withPhases all).leg? = f.leg? := rfl
  have issued : ∀ i t, (f.withPhases all).issuedFor i t = f.issuedFor i t := fun _ _ => rfl
  have place : ∀ i, (f.withPhases all).runningPosition? i = f.runningPosition? i := by
    intro i
    unfold runningPosition?
    rw [show (f.withPhases all).build.phases.length = f.build.phases.length from
      (detached_length phases).symm]
    rfl
  unfold Flow.updatePhase
  cases e.phase with
  | none => exact congrArg (·, []) same
  | some patch =>
      simp only [leg, issued, place]
      split
      · cases f.runningPosition? patch.index with
        | none => exact congrArg (·, []) same
        | some position =>
            have moved := detached_modifyPhase same position (·.applyContainer patch)
              fun _ => rfl
            exact Prod.ext moved (congrArg ([·]) (detached_snapshot moved))
      · exact congrArg (·, []) same

theorem detached_process (same : f.detached = g.detached) (e : Event) (now : Moment) :
    detachedOutcome (f.process e now) = detachedOutcome (g.process e now) := by
  have own : f.ended = g.ended ∧ f.accepts e = g.accepts e := by
    obtain ⟨all, rfl, -⟩ := exists_phases same
    exact ⟨rfl, rfl⟩
  unfold Flow.process
  rw [own.1, own.2]
  split
  · exact congrArg (·, []) same
  · split
    · exact detached_updatePhase same e
    · split
      · exact detached_drive same (some e) now
      · exact congrArg (·, []) same

theorem detached_abort (same : f.detached = g.detached) (now : Moment) :
    (f.abort now).1.detached = (g.abort now).1.detached := by
  have aborted := aborted_of_detached same
  obtain ⟨all, rfl, phases⟩ := exists_phases same
  have settled := detached_map phases (Phase.blind_settle .canceled)
  unfold Flow.abort
  rw [← aborted]
  split
  · exact same
  · simp only [Build.markAborted, Build.settlePhases, withPhases, detached, Build.detached,
      settled]

/-- Whatever is done to two flows that are the same but for containers, they stay so, and they ask
for the same but for containers. -/
theorem detached_call (same : f.detached = g.detached) (call : Call) :
    detachedOutcome (f.call call) = detachedOutcome (g.call call) := by
  cases call with
  | start now => exact detached_drive (detached_update same takeOff fun _ => rfl) none now
  | process e now => exact detached_process same e now
  | abort now => exact congrArg (·, []) (detached_abort same now)

/-- An update changes nothing but containers. -/
theorem detached_of_update (f : Flow) {e : Event} (update : e.kind = .phaseUpdate) (now : Moment) :
    (f.process e now).1.detached = f.detached := by
  have ignores := ignores_of_rejected (accepts_of_update (f := f) update) now
  generalize f.process e now = r at ignores
  cases ignores with
  | same => rfl
  | updates position patch =>
      simp only [detached, Build.detached, modifyPhase, Course.map_detached_modify]

end Flow
end Parts
end BuildPipeline
