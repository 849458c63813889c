import BuildPipeline.Proofs.Flow.Turns

/-!
How the stages that are queued lie over the phases of the build. Loading lays them out one behind
the other, so that each holds a range of positions that begins where the one before it ends, and the
last one ends with the last phase (`Ranged`). Nothing changes the number of phases but loading, and
stages only leave the queue at its front or all together, so the queue is laid out like that in
whatever state a flow is, whether it came there in order or not (`Ranged.turn`, `Ranged.call`).
-/

namespace BuildPipeline.Flow

open Time (Moment)

/-- The stages in the queue hold ranges of positions, one behind the other, that end with the last
phase of the build. -/
def Ranged (f : Flow) : Prop :=
  ∃ (first : Nat) (sizes : List Nat), f.stages = consecutive first sizes ∧
    f.build.phases.length = first + sizes.foldr (· + ·) 0

section Ranged

variable {f g : Flow} {leg : Leg} {stage : Stage} {position : Nat} {e : Option Event}
  {event : Event} {now : Moment} {t : Turn}

/-- Every position in the queue has its phase. -/
theorem Ranged.lt_of_mem (ranged : f.Ranged) (queued : stage ∈ f.stages)
    (mem : position ∈ stage.members) : position < f.build.phases.length := by
  obtain ⟨first, sizes, queue, size⟩ := ranged
  have listed : position ∈ f.stages.flatMap (·.members) :=
    List.mem_flatMap.2 ⟨stage, queued, mem⟩
  rw [queue, members_consecutive, List.mem_range'_1] at listed
  omega

theorem Ranged.congr (ranged : f.Ranged) (queue : g.stages = f.stages)
    (size : g.build.phases.length = f.build.phases.length) : g.Ranged := by
  unfold Ranged
  rw [queue, size]
  exact ranged

/-- An empty queue leaves nothing to lay out. -/
theorem ranged_of_empty (empty : f.stages = []) : f.Ranged :=
  ⟨f.build.phases.length, [], empty, rfl⟩

theorem Ranged.tail (ranged : f.Ranged) : ({ f with stages := f.stages.tail } : Flow).Ranged := by
  obtain ⟨first, sizes, queue, size⟩ := ranged
  cases sizes with
  | nil => exact ranged_of_empty (by simp [queue, consecutive])
  | cons head sizes =>
      refine ⟨first + head, sizes, by simp [queue, consecutive], ?_⟩
      rw [List.foldr_cons] at size
      simp only [size]
      omega

/-! ## The parts of a turn -/

theorem ranged_loadStages (f : Flow) (stages : List (List Phase)) :
    (f.loadStages stages).Ranged := by
  refine ⟨0, stages.map List.length, rfl, ?_⟩
  have covers := congrArg List.length (covers_consecutive stages)
  rw [members_consecutive, List.length_range', List.length_range] at covers
  rw [Nat.zero_add]
  exact covers.symm

theorem Ranged.takeStep (ranged : f.Ranged) (event : Event) (now : Moment) :
    (f.takeStep event now).1.Ranged := by
  unfold Flow.takeStep
  split
  · exact ranged
  · split
    · unfold adopt
      cases event.stages with
      | none => exact ranged.congr rfl rfl
      | some stages => exact ranged_loadStages _ stages
    · exact ranged.congr rfl (List.length_map ..)

theorem Ranged.commandStep (ranged : f.Ranged) (leg : Leg) : (f.commandStep leg).flow.Ranged := by
  have stepped := stepped f leg
  generalize f.commandStep leg = t at stepped
  cases stepped with
  | sent => exact ranged.congr rfl rfl
  | left => exact ranged.congr rfl rfl

theorem Ranged.setupTurn (ranged : f.Ranged) (now : Moment) (e : Option Event) :
    (f.setupTurn now e).flow.Ranged := by
  cases e with
  | none => exact ranged.commandStep .setup
  | some event =>
      have cleared : f.clearStep.Ranged := ranged.congr rfl rfl
      have taken := cleared.takeStep event now
      simp only [Flow.setupTurn]
      generalize f.clearStep.takeStep event now = result at taken ⊢
      obtain ⟨g, effects, _ | _⟩ := result
      · exact taken.congr rfl rfl
      · exact taken.commandStep .setup

theorem Ranged.goOnTearDown (ranged : f.Ranged) (now : Moment) :
    (f.goOnTearDown now).flow.Ranged := by
  have tornDown := tornDown f now
  generalize f.goOnTearDown now = t at tornDown
  cases tornDown with
  | sent => exact ranged.congr rfl rfl
  | complete last live build eq =>
      subst eq
      exact ranged.congr rfl rfl
  | ended => exact ranged.congr rfl rfl

theorem Ranged.tearDownTurn (ranged : f.Ranged) (now : Moment) (e : Option Event) :
    (f.tearDownTurn now e).flow.Ranged := by
  cases e with
  | none => exact ranged.goOnTearDown now
  | some event =>
      have cleared : f.clearStep.Ranged := ranged.congr rfl rfl
      have taken := cleared.takeStep event now
      simp only [Flow.tearDownTurn]
      generalize f.clearStep.takeStep event now = result at taken ⊢
      obtain ⟨g, effects, _ | _⟩ := result
      · exact taken.congr rfl rfl
      · exact taken.goOnTearDown now

theorem Ranged.checkStage (ranged : f.Ranged) (stage : Stage) :
    (f.checkStage stage).flow.Ranged := by
  have checked := checked f stage
  generalize f.checkStage stage = t at checked
  cases checked with
  | waits => exact ranged
  | passed => exact ranged.tail
  | cut => exact ranged_of_empty rfl

theorem Ranged.modifyPhase (ranged : f.Ranged) (position : Nat) (change : Phase → Phase) :
    (f.modifyPhase position change).Ranged :=
  ranged.congr rfl (List.length_modify ..)

theorem Ranged.commandPhase (ranged : f.Ranged) (index position : Nat) :
    (f.commandPhase index position).1.Ranged := by
  unfold Flow.commandPhase
  split
  · exact ranged.congr rfl rfl
  · exact ranged

theorem Ranged.startPhase (ranged : f.Ranged) (index position : Nat) :
    (f.startPhase index position).1.Ranged := by
  unfold Flow.startPhase
  split
  · dsimp only
    split
    · exact (ranged.modifyPhase _ _).modifyPhase _ _
    · exact (ranged.modifyPhase _ _).commandPhase _ _
  · exact ranged

theorem Ranged.startPhases (ranged : f.Ranged) (index : Nat) (positions : List Nat) :
    (f.startPhases index positions).1.Ranged := by
  induction positions generalizing f index with
  | nil => exact ranged
  | cons position positions ih => exact ih (ranged.startPhase index position) (index + 1)

theorem Ranged.armed (ranged : f.Ranged) (stage : Stage) : (f.armed stage).Ranged :=
  ranged.congr rfl rfl

theorem Ranged.startStage (ranged : f.Ranged) (stage : Stage) : (f.startStage stage).1.Ranged :=
  (ranged.armed stage).startPhases 0 stage.members

theorem Ranged.adoptChild (ranged : f.Ranged) (child : Option Repository) :
    (f.adoptChild child).Ranged := by
  cases child with
  | none => exact ranged
  | some child => exact ranged.congr rfl rfl

theorem Ranged.takePhase (ranged : f.Ranged) (stage : Stage) (event : Event) :
    (f.takePhase stage event).flow.Ranged := by
  unfold Flow.takePhase
  split
  · exact ranged
  · rename_i patch phase
    have cleared : (f.clearLane patch.index).Ranged := ranged.congr rfl rfl
    have adopted := cleared.adoptChild event.childRepository
    dsimp only
    split
    · exact cleared
    · rename_i position place
      split
      · split
        · have passed := adopted.modifyPhase position (passedRun patch)
          unfold phasePassed
          split
          · exact (passed.modifyPhase _ _).checkStage stage
          · exact (passed.modifyPhase _ _).commandPhase _ _
        · have failed := adopted.modifyPhase position failedRun
          unfold phaseFailed
          refine Ranged.checkStage ?_ stage
          exact failed.congr rfl rfl
      · exact adopted

/-- A turn leaves the queue laid out. -/
theorem Ranged.turn (ranged : f.Ranged) (leg : Leg) (e : Option Event) (now : Moment) :
    (f.turn leg e now).flow.Ranged := by
  unfold Flow.turn
  split
  · exact ranged.congr rfl rfl
  · cases leg with
    | setup => exact ranged.setupTurn now e
    | tearDown => exact ranged.tearDownTurn now e
    | run =>
        dsimp only
        unfold runTurn
        split
        · exact ranged.congr rfl rfl
        · exact (ranged.startStage _).checkStage _
        · exact ranged.takePhase _ _

/-! ## Calls -/

theorem Ranged.drive (ranged : f.Ranged) (e : Option Event) (now : Moment) :
    (f.drive e now).1.Ranged := by
  fun_induction Flow.drive f e now with
  | case1 => exact ranged
  | case2 f e leg rest legs goesOn g effects driven ih =>
      have next := ih (ranged.turn leg e now)
      rw [driven] at next
      exact next
  | case3 f e leg => exact ranged.turn leg e now

/-- So does any call. -/
theorem Ranged.call (ranged : f.Ranged) (call : Call) : (f.call call).1.Ranged := by
  cases call with
  | start now => exact Ranged.drive (f := f.takeOff) (ranged.congr rfl rfl) none now
  | abort now =>
      change (f.abort now).1.Ranged
      unfold abort
      split
      · exact ranged
      · exact ranged.congr rfl (List.length_map ..)
  | process event now =>
      change (f.process event now).1.Ranged
      unfold process
      split
      · exact ranged
      · split
        · unfold updatePhase
          split
          · exact ranged
          · split
            · split
              · exact ranged.modifyPhase _ _
              · exact ranged
            · exact ranged
        · split
          · exact ranged.drive (some event) now
          · exact ranged

end Ranged

end BuildPipeline.Flow
