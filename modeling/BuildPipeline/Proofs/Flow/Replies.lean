import BuildPipeline.Proofs.Flow.FanOut

/-!
What a reply makes of the phase that it answers, and of the stage around it. The reply changes one
phase and one lane (`replied`). A failure, and a success at the end of the chain, are followed by
the check of the stage (`runTurn_of_failure`, `runTurn_of_last`); any other success sends the next
command and waits (`runTurn_of_next`). What the check does is told by `checkStage_of_incomplete`,
`checkStage_of_successful` and `checkStage_of_failed`.
-/

namespace BuildPipeline.Flow

/-- A phase that the last provider of the chain is done with. -/
def settledRun (patch : PhasePatch) (p : Phase) : Phase :=
  let q := passedRun patch p
  { q with status := q.finalResult }

/-- A phase that one provider is done with and that goes on to the next. -/
def nextRun (patch : PhasePatch) (p : Phase) : Phase :=
  (passedRun patch p).beginRun patch.index

/-- A lane that nothing is waited on. -/
def clearedLane (lane : Lane) : Lane :=
  { lane with awaited := none }

/-- The flow behind a reply that changes one phase and its lane. What the reply says about the whole
build is taken over. -/
def replied (f : Flow) (e : Event) (index position : Nat) (phase : Phase → Phase)
    (lane : Lane → Lane) (minted : Nat) : Flow :=
  { f with
    build := { f.build with
      phases := f.build.phases.modify position phase
      repository := (f.adoptChild e.childRepository).build.repository
      statusMessage :=
        if e.isSuccess then f.build.statusMessage else e.statusMessage <|> f.build.statusMessage }
    lanes := f.lanes.modify index lane
    minted }

section Turns

variable {f : Flow} {stage : Stage} {rest : List Stage} {e : Event} {patch : PhasePatch}
  {position : Nat}

theorem runTurn_of_failure (queue : f.stages = stage :: rest) (phase : e.phase = some patch)
    (place : stage.position? patch.index = some position)
    (inside : position < f.build.phases.length) (fails : e.isSuccess = false) :
    f.runTurn (some e) =
      ((f.replied e patch.index position failedRun clearedLane f.minted).checkStage stage).behind
        [(f.replied e patch.index position failedRun clearedLane f.minted).snapshot] := by
  have inside' : position <
      ((f.clearLane patch.index).adoptChild e.childRepository).build.phases.length := by
    cases e.childRepository <;> exact inside
  simp only [runTurn, queue, takePhase, phase, place, if_pos inside', fails, Bool.false_eq_true,
    if_false, phaseFailed]
  cases child : e.childRepository <;> simp only [replied, child, fails] <;> rfl

theorem runTurn_of_last (queue : f.stages = stage :: rest) (phase : e.phase = some patch)
    (place : stage.position? patch.index = some position)
    (inside : position < f.build.phases.length) (success : e.isSuccess = true)
    (last : f.chains.count .runPhase ≤ f.sent patch.index) :
    f.runTurn (some e) =
      (f.replied e patch.index position (settledRun patch) clearedLane f.minted).checkStage
        stage := by
  have inside' : position <
      ((f.clearLane patch.index).adoptChild e.childRepository).build.phases.length := by
    cases e.childRepository <;> exact inside
  have sent : ((f.clearLane patch.index).adoptChild e.childRepository).sent patch.index =
      f.sent patch.index := by
    cases e.childRepository <;> simp only [adoptChild] <;>
      simp only [sent, progress?, clearLane, List.getElem?_modify] <;>
      cases f.lanes[patch.index]? <;> simp
  have last' : ((f.clearLane patch.index).adoptChild e.childRepository).chains.count .runPhase ≤
      ((f.clearLane patch.index).adoptChild e.childRepository).sent patch.index := by
    rw [sent]
    cases e.childRepository <;> exact last
  simp only [runTurn, queue, takePhase, phase, place, if_pos inside', success, if_true,
    phasePassed, if_pos last', modifyPhase, List.modify_modify_eq]
  cases child : e.childRepository <;> simp only [replied, child, success] <;> rfl

theorem commandPhase_of_lane {f : Flow} {index position : Nat} {lane : Lane} {a : Address}
    {p : Phase} (on : f.lanes[index]? = some lane)
    (next : f.chains.address? .runPhase lane.sent = some a)
    (at_ : f.build.phases[position]? = some p) :
    f.commandPhase index position =
      ({ f with
          lanes := f.lanes.modify index (Lane.command · f.nextToken)
          minted := f.minted + 1 },
        [.dispatch a (.runPhase f.nextToken f.build p)]) := by
  rw [← sent_of_lane on] at next
  simp only [commandPhase, next, at_]

theorem runTurn_of_next {lane : Lane} {a : Address} {p : Phase} (queue : f.stages = stage :: rest)
    (phase : e.phase = some patch) (place : stage.position? patch.index = some position)
    (at_ : f.build.phases[position]? = some p) (success : e.isSuccess = true)
    (on : f.lanes[patch.index]? = some lane)
    (next : f.chains.address? .runPhase lane.sent = some a) :
    f.runTurn (some e) =
      .wait
        (f.replied e patch.index position (nextRun patch) (Lane.command · f.nextToken)
          (f.minted + 1))
        [.dispatch a (.runPhase f.nextToken
          (f.replied e patch.index position (nextRun patch) (Lane.command · f.nextToken)
            (f.minted + 1)).build (nextRun patch p))] := by
  have chains : ((f.clearLane patch.index).adoptChild e.childRepository).chains = f.chains := by
    cases e.childRepository <;> rfl
  have phases : ((f.clearLane patch.index).adoptChild e.childRepository).build.phases =
      f.build.phases := by
    cases e.childRepository <;> rfl
  have cleared : ((f.clearLane patch.index).adoptChild e.childRepository).lanes[patch.index]? =
      some (clearedLane lane) := by
    cases e.childRepository <;> simp [adoptChild, clearLane, on, clearedLane]
  have inside : position <
      ((f.clearLane patch.index).adoptChild e.childRepository).build.phases.length := by
    rw [phases]
    exact (List.getElem?_eq_some_iff.1 at_).1
  have more : ¬((f.clearLane patch.index).adoptChild e.childRepository).chains.count .runPhase ≤
      ((f.clearLane patch.index).adoptChild e.childRepository).sent patch.index := by
    rw [chains, sent_of_lane cleared]
    exact Nat.not_le.2 (List.getElem?_eq_some_iff.1 next).1
  have next' : ((f.clearLane patch.index).adoptChild e.childRepository).chains.address?
      .runPhase (clearedLane lane).sent = some a := by
    rw [chains]
    exact next
  have begun : ((((f.clearLane patch.index).adoptChild e.childRepository).modifyPhase position
      (passedRun patch)).modifyPhase position (·.beginRun patch.index)).build.phases[position]? =
      some (nextRun patch p) := by
    simp [modifyPhase, phases, at_, nextRun]
  have command := commandPhase_of_lane (f :=
    (((f.clearLane patch.index).adoptChild e.childRepository).modifyPhase position
      (passedRun patch)).modifyPhase position (·.beginRun patch.index)) cleared next' begun
  simp only [runTurn, queue, takePhase, phase, place, if_pos inside, success, if_true,
    phasePassed]
  rw [if_neg more, command]
  cases child : e.childRepository <;>
    simp only [replied, child, success, adoptChild, clearLane, nextToken, modifyPhase, if_true,
      List.modify_modify_eq] <;>
    rfl

end Turns

/-! ## The check of a stage -/

theorem checkStage_of_incomplete {f : Flow} {stage : Stage}
    (open_ : ¬stage.Holds f.build.phases (·.finalResult.isTerminal = true)) :
    f.checkStage stage = .wait f [] := by
  rw [← Stage.isComplete_iff] at open_
  simp only [checkStage, if_neg open_]

theorem checkStage_of_successful {f : Flow} {stage : Stage}
    (done : stage.Holds f.build.phases (·.finalResult = .done)) :
    f.checkStage stage =
      .again { f with stages := f.stages.tail } [.publish f.build] := by
  have complete : stage.isComplete f.build.phases = true :=
    Stage.isComplete_iff.2 (done.mono fun p h => by rw [h]; rfl)
  have successful : stage.isSuccessful f.build.phases = true := Stage.isSuccessful_iff.2 done
  simp only [checkStage, if_pos complete, if_pos successful, snapshot]

/-- The build with the phases at some positions canceled. -/
def canceledAt (b : Build) (positions : List Nat) : Build :=
  { b with phases := b.phases.mapIdx fun i p =>
      if i ∈ positions then { p with status := .canceled } else p }

theorem foldl_cancelPhase (f : Flow) (positions : List Nat) :
    positions.foldl cancelPhase f = { f with build := canceledAt f.build positions } := by
  induction positions generalizing f with
  | nil =>
      simp only [List.foldl_nil, canceledAt, List.not_mem_nil, if_false]
      rw [show f.build.phases.mapIdx (fun _ p => p) = f.build.phases by
        apply List.ext_getElem? ; intro i; simp]
  | cons position positions ih =>
      rw [List.foldl_cons, ih]
      simp only [cancelPhase, modifyPhase, canceledAt, Flow.mk.injEq, Build.mk.injEq, true_and,
        and_true]
      apply List.ext_getElem?
      intro i
      by_cases here : position = i
      · subst here
        simp only [List.getElem?_mapIdx, List.getElem?_modify_eq, List.mem_cons, true_or, if_true]
        cases f.build.phases[position]? <;> simp
      · simp only [List.getElem?_mapIdx, List.getElem?_modify, here, if_false, List.mem_cons,
          Ne.symm here, false_or]
        simp

theorem checkStage_of_failed {f : Flow} {stage : Stage}
    (complete : stage.Holds f.build.phases (·.finalResult.isTerminal = true))
    (failed : ¬stage.Holds f.build.phases (·.finalResult = .done)) :
    f.checkStage stage =
      .again
        { f with
          build := canceledAt f.build (f.stages.tail.flatMap (·.members)), stages := [] }
        [.publish (canceledAt f.build (f.stages.tail.flatMap (·.members)))] := by
  rw [← Stage.isComplete_iff] at complete
  rw [← Stage.isSuccessful_iff] at failed
  simp only [checkStage, if_pos complete, if_neg failed, cancelQueued, foldl_cancelPhase, snapshot]

theorem getElem?_canceledAt (b : Build) (positions : List Nat) (position : Nat) :
    (canceledAt b positions).phases[position]? =
      b.phases[position]?.map fun p =>
        if position ∈ positions then { p with status := .canceled } else p := by
  simp [canceledAt]

end BuildPipeline.Flow
