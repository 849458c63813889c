import BuildPipeline.Flow.Drive
import BuildPipeline.Proofs.Flow.Replies

/-!
What no turn changes: the build keeps its id, and the script, the chains and the mark of an abort
stay. The number of the tokens only grows. `steady_turn` says so for a turn, `steady_drive` for a
drive, and the small lemmas before them for every part of a turn.
-/

namespace BuildPipeline.Flow

open Time (Moment)

/-- What stays from one flow to the next. -/
structure Steady (f g : Flow) : Prop where
  id : g.build.id = f.build.id
  script : g.script = f.script
  chains : g.chains = f.chains
  aborted : g.aborted = f.aborted
  minted : f.minted ≤ g.minted

theorem Steady.refl (f : Flow) : Steady f f :=
  ⟨rfl, rfl, rfl, rfl, Nat.le_refl _⟩

theorem Steady.trans {f g h : Flow} (first : Steady f g) (second : Steady g h) : Steady f h :=
  ⟨second.id.trans first.id, second.script.trans first.script, second.chains.trans first.chains,
    second.aborted.trans first.aborted, Nat.le_trans first.minted second.minted⟩

section Run

variable (f : Flow)

theorem steady_modifyPhase (position : Nat) (change : Phase → Phase) :
    Steady f (f.modifyPhase position change) :=
  ⟨rfl, rfl, rfl, rfl, Nat.le_refl _⟩

theorem steady_commandPhase (index position : Nat) :
    Steady f (f.commandPhase index position).1 := by
  unfold commandPhase
  split
  · exact ⟨rfl, rfl, rfl, rfl, Nat.le_succ _⟩
  · exact .refl f

theorem steady_startPhase (index position : Nat) : Steady f (f.startPhase index position).1 := by
  unfold startPhase
  have begun := steady_modifyPhase f position (·.beginRun index)
  split
  · split
    · exact begun.trans (steady_modifyPhase _ _ _)
    · exact begun.trans (steady_commandPhase _ _ _)
  · exact .refl f

theorem steady_startPhases (index : Nat) (positions : List Nat) :
    Steady f (f.startPhases index positions).1 := by
  induction positions generalizing f index with
  | nil => exact .refl f
  | cons position positions ih =>
      exact (steady_startPhase f index position).trans (ih _ _)

theorem steady_startStage (stage : Stage) : Steady f (f.startStage stage).1 := by
  have started := steady_startPhases
    { f with lanes := List.replicate stage.members.length {} } 0 stage.members
  exact ⟨started.id, started.script, started.chains, started.aborted, started.minted⟩

theorem steady_cancelQueued : Steady f f.cancelQueued := by
  simp only [cancelQueued, foldl_cancelPhase]
  exact ⟨rfl, rfl, rfl, rfl, Nat.le_refl _⟩

theorem steady_checkStage (stage : Stage) : Steady f (f.checkStage stage).flow := by
  have popped : Steady f { f with stages := f.stages.tail } := ⟨rfl, rfl, rfl, rfl, Nat.le_refl _⟩
  unfold checkStage
  split
  · simp only [Turn.again]
    split
    · exact popped
    · exact popped.trans (steady_cancelQueued _)
  · exact .refl f

theorem steady_phaseFailed (stage : Stage) (position : Nat) (e : Event) :
    Steady f (f.phaseFailed stage position e).flow := by
  have failed : Steady f
      { f.modifyPhase position failedRun with
        build := { (f.modifyPhase position failedRun).build with
          statusMessage :=
            e.statusMessage <|> (f.modifyPhase position failedRun).build.statusMessage } } :=
    ⟨rfl, rfl, rfl, rfl, Nat.le_refl _⟩
  exact failed.trans (steady_checkStage _ stage)

theorem steady_phasePassed (stage : Stage) (index position : Nat) (patch : PhasePatch) :
    Steady f (f.phasePassed stage index position patch).flow := by
  have passed := steady_modifyPhase f position (passedRun patch)
  unfold phasePassed
  split
  · exact (passed.trans (steady_modifyPhase _ _ _)).trans (steady_checkStage _ stage)
  · exact (passed.trans (steady_modifyPhase _ _ _)).trans (steady_commandPhase _ _ _)

theorem steady_takePhase (stage : Stage) (e : Event) : Steady f (f.takePhase stage e).flow := by
  unfold takePhase
  dsimp only
  split
  · exact .refl f
  · rename_i patch _
    have cleared : Steady f (f.clearLane patch.index) := ⟨rfl, rfl, rfl, rfl, Nat.le_refl _⟩
    split
    · exact cleared
    · rename_i position _
      have adopted : Steady f ((f.clearLane patch.index).adoptChild e.childRepository) := by
        cases e.childRepository <;> exact ⟨rfl, rfl, rfl, rfl, Nat.le_refl _⟩
      split
      · split
        · exact adopted.trans (steady_phasePassed _ stage patch.index position patch)
        · exact adopted.trans (steady_phaseFailed _ stage position e)
      · exact adopted

theorem steady_leaveLeg : Steady f f.leaveLeg :=
  ⟨rfl, rfl, rfl, rfl, Nat.le_refl _⟩

theorem steady_runTurn (e : Option Event) : Steady f (f.runTurn e).flow := by
  unfold runTurn
  split
  · exact steady_leaveLeg f
  · rename_i stage _ _
    exact (steady_startStage f stage).trans (steady_checkStage _ stage)
  · exact steady_takePhase f _ _

end Run

section Steps

variable (f : Flow)

theorem steady_commandStep (leg : Leg) : Steady f (f.commandStep leg).flow := by
  unfold commandStep
  split
  · exact steady_leaveLeg f
  · exact ⟨rfl, rfl, rfl, rfl, Nat.le_succ _⟩

theorem steady_takeStep (e : Event) (now : Moment) : Steady f (f.takeStep e now).1 := by
  unfold takeStep
  split
  · exact .refl f
  · split
    · unfold adopt loadStages?
      split <;> exact ⟨rfl, rfl, rfl, rfl, Nat.le_refl _⟩
    · exact ⟨rfl, rfl, rfl, rfl, Nat.le_refl _⟩

theorem steady_goOnTearDown (now : Moment) : Steady f (f.goOnTearDown now).flow := by
  unfold goOnTearDown conclude
  split
  · exact steady_commandStep f _
  · split <;> exact ⟨rfl, rfl, rfl, rfl, Nat.le_refl _⟩

theorem steady_clearStep : Steady f f.clearStep :=
  ⟨rfl, rfl, rfl, rfl, Nat.le_refl _⟩

theorem steady_setupTurn (now : Moment) (e : Option Event) :
    Steady f (f.setupTurn now e).flow := by
  cases e with
  | none => exact steady_commandStep f _
  | some e =>
      have taken := (steady_clearStep f).trans (steady_takeStep _ e now)
      simp only [setupTurn]
      rcases step : f.clearStep.takeStep e now with ⟨g, effects, ok⟩
      rw [step] at taken
      cases ok with
      | true => exact taken.trans (steady_commandStep g _)
      | false => exact taken.trans ⟨rfl, rfl, rfl, rfl, Nat.le_refl _⟩

theorem steady_tearDownTurn (now : Moment) (e : Option Event) :
    Steady f (f.tearDownTurn now e).flow := by
  cases e with
  | none => exact steady_goOnTearDown f now
  | some e =>
      have taken := (steady_clearStep f).trans (steady_takeStep _ e now)
      simp only [tearDownTurn]
      rcases step : f.clearStep.takeStep e now with ⟨g, effects, ok⟩
      rw [step] at taken
      cases ok with
      | true => exact taken.trans (steady_goOnTearDown g now)
      | false => exact taken.trans ⟨rfl, rfl, rfl, rfl, Nat.le_refl _⟩

end Steps

theorem steady_turn (f : Flow) (leg : Leg) (e : Option Event) (now : Moment) :
    Steady f (f.turn leg e now).flow := by
  unfold turn
  split
  · exact steady_leaveLeg f
  · cases leg with
    | setup => exact steady_setupTurn f now e
    | run => exact steady_runTurn f e
    | tearDown => exact steady_tearDownTurn f now e

theorem steady_drive (f : Flow) (e : Option Event) (now : Moment) :
    Steady f (f.drive e now).1 := by
  fun_induction drive f e now with
  | case1 => exact .refl _
  | case2 f e leg rest legs goesOn g effects driven ih =>
      rw [driven] at ih
      exact (steady_turn f leg e now).trans ih
  | case3 f e leg rest legs waits => exact steady_turn f leg e now

theorem steady_process (f : Flow) (e : Event) (now : Moment) :
    Steady f (f.process e now).1 := by
  unfold process updatePhase
  split
  · exact .refl f
  · split
    · split
      · exact .refl f
      · split
        · split
          · exact steady_modifyPhase f _ _
          · exact .refl f
        · exact .refl f
    · split
      · exact steady_drive f (some e) now
      · exact .refl f

end BuildPipeline.Flow
