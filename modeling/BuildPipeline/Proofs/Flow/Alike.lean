import BuildPipeline.Proofs.Flow.Calls

/-!
Flows that are the same but for what the order of replies may change: the numbers of the tokens, the
status message, and the children of the repository (`Flow.Alike`). No turn looks at any of these, so
alike flows stay alike when the same thing happens to them; `Flow.Alike.drive` says so of a whole
drive.
-/

namespace BuildPipeline

open Time (Moment)

/-- The build without its status message and without the children of its repository. -/
def Build.bare (b : Build) : Build :=
  { b with statusMessage := none, repository := { b.repository with children := [] } }

/-- A lane without its tokens: how many commands were sent, and whether one is waited on. -/
def Lane.bare (lane : Lane) : Nat × Bool :=
  (lane.sent, lane.awaited.isSome)

namespace Flow

/-- The flows are the same but for tokens, the status message and the children of the
repository. -/
structure Alike (f g : Flow) : Prop where
  build : f.build.bare = g.build.bare
  chains : f.chains = g.chains
  legs : f.legs = g.legs
  count : f.dispatched = g.dispatched
  step : f.pendingStep.isSome = g.pendingStep.isSome
  queue : f.stages = g.stages
  lanes : f.lanes.map Lane.bare = g.lanes.map Lane.bare
  aborted : f.aborted = g.aborted
  ended : f.ended = g.ended

end Flow

/-- The turns go on to alike flows, or wait with alike flows. -/
structure Turn.Alike (t u : Turn) : Prop where
  flow : t.flow.Alike u.flow
  goesOn : t.goesOn = u.goesOn

namespace Flow

variable {f g h : Flow} {t u : Turn}

theorem Alike.refl (f : Flow) : Alike f f :=
  ⟨rfl, rfl, rfl, rfl, rfl, rfl, rfl, rfl, rfl⟩

theorem Alike.symm (alike : Alike f g) : Alike g f :=
  ⟨alike.build.symm, alike.chains.symm, alike.legs.symm, alike.count.symm, alike.step.symm,
    alike.queue.symm, alike.lanes.symm, alike.aborted.symm, alike.ended.symm⟩

theorem Alike.trans (first : Alike f g) (second : Alike g h) : Alike f h :=
  ⟨first.build.trans second.build, first.chains.trans second.chains,
    first.legs.trans second.legs, first.count.trans second.count, first.step.trans second.step,
    first.queue.trans second.queue, first.lanes.trans second.lanes,
    first.aborted.trans second.aborted, first.ended.trans second.ended⟩

/-! ## What is read off alike flows -/

theorem Alike.phases (alike : Alike f g) : f.build.phases = g.build.phases := by
  have same := congrArg Build.phases alike.build
  exact same

theorem Alike.status (alike : Alike f g) : f.build.status = g.build.status := by
  have same := congrArg Build.status alike.build
  exact same

theorem Alike.leg? (alike : Alike f g) : f.leg? = g.leg? :=
  congrArg List.head? alike.legs

/-- The lanes of alike flows come in pairs. -/
theorem Alike.lane (alike : Alike f g) {i : Nat} {lane : Lane} (at_ : f.lanes[i]? = some lane) :
    ∃ other, g.lanes[i]? = some other ∧ other.bare = lane.bare := by
  have both : (f.lanes.map Lane.bare)[i]? = (g.lanes.map Lane.bare)[i]? := by rw [alike.lanes]
  rw [List.getElem?_map, List.getElem?_map, at_] at both
  exact Option.map_eq_some_iff.1 both.symm

theorem Alike.sent (alike : Alike f g) (i : Nat) : f.sent i = g.sent i := by
  cases at_ : f.lanes[i]? with
  | some lane =>
      rcases alike.lane at_ with ⟨other, at_other, bare⟩
      rw [sent_of_lane at_, sent_of_lane at_other]
      exact (congrArg Prod.fst bare).symm
  | none =>
      cases at_other : g.lanes[i]? with
      | none => simp [Flow.sent, Flow.progress?, at_, at_other]
      | some other =>
          rcases alike.symm.lane at_other with ⟨lane, at_lane, -⟩
          rw [at_] at at_lane
          cases at_lane

/-! ## What keeps flows alike -/

theorem Alike.withBuild (alike : Alike f g) {b c : Build} (build : b.bare = c.bare) :
    Alike { f with build := b } { g with build := c } :=
  ⟨build, alike.chains, alike.legs, alike.count, alike.step, alike.queue, alike.lanes,
    alike.aborted, alike.ended⟩

theorem Alike.withPhases (alike : Alike f g) (change : List Phase → List Phase) :
    Alike { f with build := { f.build with phases := change f.build.phases } }
      { g with build := { g.build with phases := change g.build.phases } } :=
  alike.withBuild
    (congrArg (fun b : Build => { b with phases := change b.phases }) alike.build)

theorem Alike.modifyPhase (alike : Alike f g) (position : Nat) (change : Phase → Phase) :
    Alike (f.modifyPhase position change) (g.modifyPhase position change) :=
  alike.withPhases (·.modify position change)

theorem Alike.withStages (alike : Alike f g) (stages : List Stage) :
    Alike { f with stages } { g with stages } :=
  ⟨alike.build, alike.chains, alike.legs, alike.count, alike.step, rfl, alike.lanes,
    alike.aborted, alike.ended⟩

theorem map_modify_bare (lanes : List Lane) (i : Nat) {change : Lane → Lane}
    {change' : Nat × Bool → Nat × Bool} (bare : ∀ lane, (change lane).bare = change' lane.bare) :
    (lanes.modify i change).map Lane.bare = (lanes.map Lane.bare).modify i change' := by
  apply List.ext_getElem?
  intro j
  simp only [List.getElem?_map, List.getElem?_modify]
  cases lanes[j]? with
  | none => rfl
  | some lane =>
      by_cases here : i = j
      · simp [here, bare]
      · simp [here]

/-- Changes of a lane that differ in tokens only keep flows alike. -/
theorem Alike.modifyLane (alike : Alike f g) (i : Nat) {change other : Lane → Lane}
    (change' : Nat × Bool → Nat × Bool) (bare : ∀ lane, (change lane).bare = change' lane.bare)
    (bare' : ∀ lane, (other lane).bare = change' lane.bare) (m n : Nat) :
    Alike { f with lanes := f.lanes.modify i change, minted := m }
      { g with lanes := g.lanes.modify i other, minted := n } := by
  refine ⟨alike.build, alike.chains, alike.legs, alike.count, alike.step, alike.queue, ?_,
    alike.aborted, alike.ended⟩
  rw [map_modify_bare _ _ bare, map_modify_bare _ _ bare', alike.lanes]

theorem Alike.leaveLeg (alike : Alike f g) : Alike f.leaveLeg g.leaveLeg :=
  ⟨alike.build, alike.chains, congrArg List.tail alike.legs, rfl, rfl, alike.queue, rfl,
    alike.aborted, alike.ended⟩

theorem Alike.finish (alike : Alike f g) : Alike f.finish g.finish :=
  ⟨alike.build, alike.chains, rfl, alike.count, rfl, alike.queue, rfl, alike.aborted, rfl⟩

theorem Alike.clearStep (alike : Alike f g) : Alike f.clearStep g.clearStep :=
  ⟨alike.build, alike.chains, alike.legs, alike.count, rfl, alike.queue, alike.lanes,
    alike.aborted, alike.ended⟩

theorem Alike.commanded (alike : Alike f g) : Alike f.commanded g.commanded :=
  ⟨alike.build, alike.chains, alike.legs, congrArg (· + 1) alike.count, rfl, alike.queue,
    alike.lanes, alike.aborted, alike.ended⟩

theorem Alike.commandStep (alike : Alike f g) (leg : Leg) :
    (f.commandStep leg).Alike (g.commandStep leg) := by
  cases next : f.chains.address? leg.capability f.dispatched with
  | none =>
      have other := next
      rw [alike.chains, alike.count] at other
      rw [commandStep_of_none leg next, commandStep_of_none leg other]
      exact ⟨alike.leaveLeg, rfl⟩
  | some a =>
      have other := next
      rw [alike.chains, alike.count] at other
      rw [commandStep_of_address leg next, commandStep_of_address leg other]
      exact ⟨alike.commanded, rfl⟩

/-! ## Set-up and tear-down -/

theorem Alike.adopt (alike : Alike f g) (e : Event) : Alike (f.adopt e) (g.adopt e) := by
  have taken : Alike
      { f with build := { f.build with
          workspace := e.workspace.getD f.build.workspace
          repository := e.repository.getD f.build.repository } }
      { g with build := { g.build with
          workspace := e.workspace.getD g.build.workspace
          repository := e.repository.getD g.build.repository } } := by
    apply alike.withBuild
    cases e.repository with
    | none =>
        exact congrArg (fun b : Build =>
          { b with workspace := e.workspace.getD b.workspace }) alike.build
    | some r =>
        exact congrArg (fun b : Build =>
          { b with
            workspace := e.workspace.getD b.workspace
            repository := { r with children := [] } }) alike.build
  unfold Flow.adopt
  cases e.stages with
  | none => exact taken
  | some stages => exact (taken.withPhases fun _ => stages.flatten.map fresh).withStages _

theorem Alike.failBuild (alike : Alike f g) (e : Event) (now : Moment) :
    Alike (f.failBuild e now) (g.failBuild e now) :=
  alike.withBuild (congrArg (Build.markFailed · none now) alike.build)

theorem Alike.takeStep (alike : Alike f g) (e : Event) (now : Moment) :
    Alike (f.takeStep e now).1 (g.takeStep e now).1 ∧
      (f.takeStep e now).2.2 = (g.takeStep e now).2.2 := by
  have aborted := alike.aborted
  cases live : g.aborted with
  | true =>
      simp only [Flow.takeStep, aborted, live, if_true]
      exact ⟨alike, trivial⟩
  | false =>
      simp only [Flow.takeStep, aborted, live]
      cases e.isSuccess with
      | true => exact ⟨alike.adopt e, rfl⟩
      | false => exact ⟨alike.failBuild e now, rfl⟩

theorem Alike.setupTurn (alike : Alike f g) (now : Moment) (e : Option Event) :
    (f.setupTurn now e).Alike (g.setupTurn now e) := by
  cases e with
  | none => exact alike.commandStep .setup
  | some e =>
      have taken := alike.clearStep.takeStep e now
      simp only [Flow.setupTurn]
      generalize f.clearStep.takeStep e now = taken_f at taken
      generalize g.clearStep.takeStep e now = taken_g at taken
      obtain ⟨f', effects, ok⟩ := taken_f
      obtain ⟨g', effects', ok'⟩ := taken_g
      obtain ⟨alike', same⟩ := taken
      obtain rfl : ok = ok' := same
      cases ok with
      | true =>
          have next := Alike.commandStep alike' .setup
          exact ⟨next.flow, next.goesOn⟩
      | false =>
          refine ⟨?_, rfl⟩
          exact ⟨alike'.build, alike'.chains, congrArg (·.tail.tail) alike'.legs, rfl, rfl,
            alike'.queue, rfl, alike'.aborted, alike'.ended⟩

theorem Alike.conclude (alike : Alike f g) (now : Moment) :
    (f.conclude now).Alike (g.conclude now) := by
  have marked : (f.build.markComplete now).bare = (g.build.markComplete now).bare :=
    congrArg (Build.markComplete · now) alike.build
  have sound : (f.build.status ≠ .failed ∧ !f.aborted) ↔
      (g.build.status ≠ .failed ∧ !g.aborted) := by
    rw [alike.status, alike.aborted]
  unfold Flow.conclude
  by_cases complete : g.build.status ≠ .failed ∧ !g.aborted
  · rw [if_pos complete, if_pos (sound.2 complete)]
    exact ⟨(alike.withBuild marked).finish, rfl⟩
  · rw [if_neg complete, if_neg (mt sound.1 complete)]
    exact ⟨alike.finish, rfl⟩

theorem Alike.goOnTearDown (alike : Alike f g) (now : Moment) :
    (f.goOnTearDown now).Alike (g.goOnTearDown now) := by
  have more : f.dispatched < f.chains.count .tearDown ↔
      g.dispatched < g.chains.count .tearDown := by
    rw [alike.count, alike.chains]
  unfold Flow.goOnTearDown
  by_cases left : g.dispatched < g.chains.count .tearDown
  · rw [if_pos left, if_pos (more.2 left)]
    exact alike.commandStep .tearDown
  · rw [if_neg left, if_neg (mt more.1 left)]
    exact alike.conclude now

theorem Alike.tearDownTurn (alike : Alike f g) (now : Moment) (e : Option Event) :
    (f.tearDownTurn now e).Alike (g.tearDownTurn now e) := by
  cases e with
  | none => exact alike.goOnTearDown now
  | some e =>
      have taken := alike.clearStep.takeStep e now
      simp only [Flow.tearDownTurn]
      generalize f.clearStep.takeStep e now = taken_f at taken
      generalize g.clearStep.takeStep e now = taken_g at taken
      obtain ⟨f', effects, ok⟩ := taken_f
      obtain ⟨g', effects', ok'⟩ := taken_g
      obtain ⟨alike', same⟩ := taken
      obtain rfl : ok = ok' := same
      cases ok with
      | true =>
          have next := Alike.goOnTearDown alike' now
          exact ⟨next.flow, next.goesOn⟩
      | false => exact ⟨Alike.finish alike', rfl⟩

/-! ## The run -/

theorem Alike.checkStage (alike : Alike f g) (stage : Stage) :
    (f.checkStage stage).Alike (g.checkStage stage) := by
  by_cases complete : stage.Holds g.build.phases (·.finalResult.isTerminal = true)
  · have complete' := complete
    rw [← alike.phases] at complete'
    by_cases done : stage.Holds g.build.phases (·.finalResult = .done)
    · have done' := done
      rw [← alike.phases] at done'
      rw [checkStage_of_successful done, checkStage_of_successful done', ← alike.queue]
      exact ⟨alike.withStages _, rfl⟩
    · have failed := done
      rw [← alike.phases] at failed
      rw [checkStage_of_failed complete done, checkStage_of_failed complete' failed, ← alike.queue]
      have canceled : (canceledAt f.build (f.stages.tail.flatMap (·.members))).bare =
          (canceledAt g.build (f.stages.tail.flatMap (·.members))).bare :=
        congrArg (fun b => canceledAt b (f.stages.tail.flatMap Stage.members)) alike.build
      exact ⟨(alike.withBuild canceled).withStages [], rfl⟩
  · have incomplete := complete
    rw [← alike.phases] at incomplete
    rw [checkStage_of_incomplete complete, checkStage_of_incomplete incomplete]
    exact ⟨alike, rfl⟩

theorem Alike.commandPhase (alike : Alike f g) (index position : Nat) :
    Alike (f.commandPhase index position).1 (g.commandPhase index position).1 := by
  have same : f.chains.address? .runPhase (f.sent index) =
      g.chains.address? .runPhase (g.sent index) := by
    rw [alike.sent, alike.chains]
  cases next : g.chains.address? .runPhase (g.sent index) with
  | none => simpa only [Flow.commandPhase, same.trans next, next] using alike
  | some a =>
      cases at_ : g.build.phases[position]? with
      | none =>
          simpa only [Flow.commandPhase, same.trans next, next, alike.phases, at_] using alike
      | some p =>
          simp only [Flow.commandPhase, same.trans next, next, alike.phases, at_]
          refine alike.modifyLane index (fun lane => (lane.1 + 1, true)) ?_ ?_ _ _
          · exact fun _ => rfl
          · exact fun _ => rfl

theorem Alike.startPhase (alike : Alike f g) (index position : Nat) :
    Alike (f.startPhase index position).1 (g.startPhase index position).1 := by
  have begun := alike.modifyPhase position (·.beginRun index)
  unfold Flow.startPhase
  rw [alike.phases, alike.chains]
  split
  · split
    · exact begun.modifyPhase position _
    · exact begun.commandPhase index position
  · exact alike

theorem Alike.startPhases (alike : Alike f g) (index : Nat) (positions : List Nat) :
    Alike (f.startPhases index positions).1 (g.startPhases index positions).1 := by
  induction positions generalizing f g index with
  | nil => exact alike
  | cons position positions ih => exact ih (alike.startPhase index position) (index + 1)

theorem Alike.startStage (alike : Alike f g) (stage : Stage) :
    Alike (f.startStage stage).1 (g.startStage stage).1 := by
  have opened : Alike { f with lanes := List.replicate stage.members.length {} }
      { g with lanes := List.replicate stage.members.length {} } :=
    ⟨alike.build, alike.chains, alike.legs, alike.count, alike.step, alike.queue, rfl,
      alike.aborted, alike.ended⟩
  exact opened.startPhases 0 stage.members

theorem Alike.adoptChild (alike : Alike f g) (child : Option Repository) :
    Alike (f.adoptChild child) (g.adoptChild child) := by
  cases child with
  | none => exact alike
  | some child => exact alike.withBuild alike.build

theorem Alike.clearLane (alike : Alike f g) (index : Nat) :
    Alike (f.clearLane index) (g.clearLane index) := by
  refine alike.modifyLane index (fun lane => (lane.1, false)) ?_ ?_ _ _
  · exact fun _ => rfl
  · exact fun _ => rfl

theorem Alike.phaseFailed (alike : Alike f g) (stage : Stage) (position : Nat) (e : Event) :
    (f.phaseFailed stage position e).Alike (g.phaseFailed stage position e) := by
  have marked := alike.modifyPhase position failedRun
  have told : Alike
      { f.modifyPhase position failedRun with build :=
        { (f.modifyPhase position failedRun).build with
          statusMessage :=
            e.statusMessage <|> (f.modifyPhase position failedRun).build.statusMessage } }
      { g.modifyPhase position failedRun with build :=
        { (g.modifyPhase position failedRun).build with
          statusMessage :=
            e.statusMessage <|> (g.modifyPhase position failedRun).build.statusMessage } } :=
    marked.withBuild marked.build
  have checked := told.checkStage stage
  exact ⟨checked.flow, checked.goesOn⟩

theorem Alike.phasePassed (alike : Alike f g) (stage : Stage) (index position : Nat)
    (patch : PhasePatch) :
    (f.phasePassed stage index position patch).Alike
      (g.phasePassed stage index position patch) := by
  have marked := alike.modifyPhase position (passedRun patch)
  unfold Flow.phasePassed
  rw [alike.chains, alike.sent]
  split
  · exact (marked.modifyPhase position _).checkStage stage
  · exact ⟨(marked.modifyPhase position _).commandPhase index position, rfl⟩

theorem Alike.takePhase (alike : Alike f g) (stage : Stage) (e : Event) :
    (f.takePhase stage e).Alike (g.takePhase stage e) := by
  unfold Flow.takePhase
  cases e.phase with
  | none => exact ⟨alike, rfl⟩
  | some patch =>
      have cleared := alike.clearLane patch.index
      simp only
      cases stage.position? patch.index with
      | none => exact ⟨cleared, rfl⟩
      | some position =>
          have adopted := cleared.adoptChild e.childRepository
          simp only
          rw [adopted.phases]
          split
          · split
            · exact adopted.phasePassed stage patch.index position patch
            · exact adopted.phaseFailed stage position e
          · exact ⟨adopted, rfl⟩

theorem Alike.runTurn (alike : Alike f g) (e : Option Event) :
    (f.runTurn e).Alike (g.runTurn e) := by
  unfold Flow.runTurn
  rw [alike.queue]
  cases g.stages with
  | nil => exact ⟨alike.leaveLeg, rfl⟩
  | cons stage rest =>
      cases e with
      | none =>
          have checked := (alike.startStage stage).checkStage stage
          exact ⟨checked.flow, checked.goesOn⟩
      | some e => exact alike.takePhase stage e

/-! ## Turns and drives -/

theorem Alike.turn (alike : Alike f g) (leg : Leg) (e : Option Event) (now : Moment) :
    (f.turn leg e now).Alike (g.turn leg e now) := by
  by_cases drops : f.aborted = true ∧ leg ≠ .tearDown
  · have drops' := drops
    rw [alike.aborted] at drops'
    unfold Flow.turn
    rw [if_pos drops, if_pos drops']
    exact ⟨alike.leaveLeg, rfl⟩
  · have keeps := drops
    rw [alike.aborted] at keeps
    unfold Flow.turn
    rw [if_neg drops, if_neg keeps]
    cases leg with
    | setup => exact alike.setupTurn now e
    | run => exact alike.runTurn e
    | tearDown => exact alike.tearDownTurn now e

theorem Alike.starting? (alike : Alike f g) (leg : Leg) (e : Option Event) :
    f.starting? leg e = g.starting? leg e := by
  unfold Flow.starting?
  rw [alike.aborted, alike.queue]

theorem drive_of_over (e : Option Event) (now : Moment) (legs : f.legs = []) :
    f.drive e now = (f, []) := by
  rw [Flow.drive]
  split
  · rfl
  · simp_all

theorem startedBy_of_over (e : Option Event) (now : Moment) (legs : f.legs = []) :
    f.startedBy e now = [] := by
  rw [Flow.startedBy]
  split
  · rfl
  · simp_all

/-- Alike flows that are driven by the same event start the same stages and stay alike. -/
theorem Alike.drive (alike : Alike f g) (e : Option Event) (now : Moment) :
    Alike (f.drive e now).1 (g.drive e now).1 ∧ f.startedBy e now = g.startedBy e now := by
  fun_induction Flow.drive f e now generalizing g with
  | case1 f e legs =>
      have legs' := alike.legs.symm.trans legs
      rw [drive_of_over e now legs', startedBy_of_over e now legs, startedBy_of_over e now legs']
      exact ⟨alike, rfl⟩
  | case2 f e leg rest legs goesOn f' effects driven ih =>
      have turned := alike.turn leg e now
      have legs' := alike.legs.symm.trans legs
      have goesOn' := turned.goesOn.symm.trans goesOn
      rcases ih turned.flow with ⟨landed, started⟩
      rw [driven] at landed
      rw [drive_of_legs now legs', if_pos goesOn', startedBy_of_legs now legs,
        startedBy_of_legs now legs', if_pos goesOn, if_pos goesOn', started, alike.starting?]
      exact ⟨landed, rfl⟩
  | case3 f e leg rest legs waits =>
      have turned := alike.turn leg e now
      have legs' := alike.legs.symm.trans legs
      have waits' : ¬(g.turn leg e now).goesOn = true := by
        rw [← turned.goesOn]
        exact waits
      rw [drive_of_legs now legs', if_neg waits', startedBy_of_legs now legs,
        startedBy_of_legs now legs', if_neg waits, if_neg waits', alike.starting?]
      exact ⟨turned.flow, rfl⟩

end Flow
end BuildPipeline
