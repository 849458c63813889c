import BuildPipeline.Proofs.Flow.Course
import BuildPipeline.Proofs.Flow.Turns

/-!
Whose affair the effects of a flow are. A call on a flow keeps the id of its build, and all that the
flow asks for is about a build with this id: the commands, the copies for the store and the build
that it ends with (`Flow.owns_call`).
-/

namespace BuildPipeline

open Time (Moment)

/-- The build that an effect is about. -/
def Effect.build : Effect → Build
  | .dispatch _ command => command.build
  | .publish build => build
  | .finish build => build

namespace Flow

/-- A flow `f` becomes `g` under the same id, with effects that are about this id. -/
structure Owns (f : Flow) (effects : List Effect) (g : Flow) : Prop where
  id : g.build.id = f.build.id
  own : ∀ x ∈ effects, x.build.id = f.build.id

section Owns

variable {f g h : Flow} {early late : List Effect}

theorem Owns.quiet (id : g.build.id = f.build.id) : Owns f [] g :=
  ⟨id, fun _ mem => absurd mem List.not_mem_nil⟩

theorem Owns.one {x : Effect} (id : g.build.id = f.build.id) (own : x.build.id = f.build.id) :
    Owns f [x] g :=
  ⟨id, fun _ mem => List.mem_singleton.1 mem ▸ own⟩

theorem Owns.refl (f : Flow) : Owns f [] f :=
  .quiet rfl

theorem Owns.congr (owns : Owns f late g) (id : f.build.id = h.build.id) : Owns h late g :=
  ⟨owns.id.trans id, fun x mem => (owns.own x mem).trans id⟩

theorem Owns.trans (first : Owns f early g) (second : Owns g late h) :
    Owns f (early ++ late) h := by
  have onwards := second.congr first.id
  refine ⟨onwards.id, fun x mem => ?_⟩
  rcases List.mem_append.1 mem with before | after
  · exact first.own x before
  · exact onwards.own x after

variable (f)

/-! ## Set-up and tear-down -/

theorem owns_commandStep (leg : Leg) :
    Owns f (f.commandStep leg).effects (f.commandStep leg).flow := by
  unfold commandStep
  split
  · exact .quiet rfl
  · refine .one rfl ?_
    cases leg <;> rfl

theorem owns_takeStep (e : Event) (now : Moment) :
    Owns f (f.takeStep e now).2.1 (f.takeStep e now).1 := by
  unfold takeStep
  split
  · exact .refl f
  · split
    · have id : (f.adopt e).build.id = f.build.id := by
        unfold adopt loadStages?
        split <;> rfl
      exact .one id id
    · exact .one rfl rfl

theorem owns_goOnTearDown (now : Moment) :
    Owns f (f.goOnTearDown now).effects (f.goOnTearDown now).flow := by
  unfold goOnTearDown conclude
  split
  · exact owns_commandStep f _
  · split
    · have told : Owns f [.publish (f.build.markComplete now)]
          { f with build := f.build.markComplete now } := .one rfl rfl
      exact told.trans (.one rfl rfl)
    · exact .one rfl rfl

theorem owns_setupTurn (now : Moment) (e : Option Event) :
    Owns f (f.setupTurn now e).effects (f.setupTurn now e).flow := by
  cases e with
  | none => exact owns_commandStep f _
  | some e =>
      have taken := (owns_takeStep f.clearStep e now).congr (h := f) rfl
      simp only [setupTurn]
      rcases step : f.clearStep.takeStep e now with ⟨g, effects, sound⟩
      rw [step] at taken
      cases sound with
      | true => exact taken.trans (owns_commandStep g _)
      | false =>
          have left : Owns g [] { g with legs := g.legs.tail }.leaveLeg := .quiet rfl
          rw [← List.append_nil effects]
          exact taken.trans left

theorem owns_tearDownTurn (now : Moment) (e : Option Event) :
    Owns f (f.tearDownTurn now e).effects (f.tearDownTurn now e).flow := by
  cases e with
  | none => exact owns_goOnTearDown f now
  | some e =>
      have taken := (owns_takeStep f.clearStep e now).congr (h := f) rfl
      simp only [tearDownTurn]
      rcases step : f.clearStep.takeStep e now with ⟨g, effects, sound⟩
      rw [step] at taken
      cases sound with
      | true => exact taken.trans (owns_goOnTearDown g now)
      | false => exact taken.trans (.one (g := g.finish) rfl rfl)

/-! ## The run -/

theorem owns_commandPhase (index position : Nat) :
    Owns f (f.commandPhase index position).2 (f.commandPhase index position).1 := by
  unfold commandPhase
  split
  · exact .one rfl rfl
  · exact .refl f

theorem owns_startPhase (index position : Nat) :
    Owns f (f.startPhase index position).2 (f.startPhase index position).1 := by
  unfold startPhase
  split
  · split
    · exact .quiet rfl
    · have begun := owns_commandPhase (f.modifyPhase position (·.beginRun index)) index position
      exact begun.congr rfl
  · exact .refl f

theorem owns_startPhases (index : Nat) (positions : List Nat) :
    Owns f (f.startPhases index positions).2 (f.startPhases index positions).1 := by
  induction positions generalizing f index with
  | nil => exact .refl f
  | cons position positions ih => exact (owns_startPhase f index position).trans (ih _ _)

theorem owns_startStage (stage : Stage) :
    Owns f (f.startStage stage).2 (f.startStage stage).1 := by
  have started := owns_startPhases (f.armed stage) 0 stage.members
  rw [startStage_eq]
  exact Owns.trans (started.congr (h := f) rfl) (.one rfl rfl)

theorem owns_checkStage (stage : Stage) :
    Owns f (f.checkStage stage).effects (f.checkStage stage).flow := by
  have checked := checked f stage
  generalize f.checkStage stage = t at checked
  cases checked with
  | waits => exact .refl f
  | passed => exact .one rfl rfl
  | cut => exact .one rfl rfl

theorem owns_phasePassed (stage : Stage) (index position : Nat) (patch : PhasePatch) :
    Owns f (f.phasePassed stage index position patch).effects
      (f.phasePassed stage index position patch).flow := by
  unfold phasePassed
  split
  · exact (owns_checkStage _ stage).congr rfl
  · exact (owns_commandPhase _ index position).congr rfl

theorem owns_phaseFailed (stage : Stage) (position : Nat) (e : Event) :
    Owns f (f.phaseFailed stage position e).effects (f.phaseFailed stage position e).flow := by
  have told : ∀ h : Flow, h.build.id = f.build.id →
      Owns f ((h.checkStage stage).behind [h.snapshot]).effects
        ((h.checkStage stage).behind [h.snapshot]).flow :=
    fun h id => Owns.trans (.one id id) (owns_checkStage h stage)
  exact told _ rfl

theorem owns_takePhase (stage : Stage) (e : Event) :
    Owns f (f.takePhase stage e).effects (f.takePhase stage e).flow := by
  unfold takePhase
  split
  · exact .refl f
  · rename_i patch _
    dsimp only
    split
    · exact .quiet rfl
    · rename_i position _
      have adopted : Owns f [] ((f.clearLane patch.index).adoptChild e.childRepository) := by
        cases e.childRepository <;> exact .quiet rfl
      split
      · split
        · exact adopted.trans (owns_phasePassed _ stage patch.index position patch)
        · exact adopted.trans (owns_phaseFailed _ stage position e)
      · exact adopted

theorem owns_runTurn (e : Option Event) : Owns f (f.runTurn e).effects (f.runTurn e).flow := by
  unfold runTurn
  split
  · exact .quiet rfl
  · rename_i stage _ _
    exact (owns_startStage f stage).trans (owns_checkStage _ stage)
  · exact owns_takePhase f _ _

/-! ## Calls -/

theorem owns_turn (leg : Leg) (e : Option Event) (now : Moment) :
    Owns f (f.turn leg e now).effects (f.turn leg e now).flow := by
  unfold turn
  split
  · exact .quiet rfl
  · cases leg with
    | setup => exact owns_setupTurn f now e
    | run => exact owns_runTurn f e
    | tearDown => exact owns_tearDownTurn f now e

theorem owns_drive (e : Option Event) (now : Moment) :
    Owns f (f.drive e now).2 (f.drive e now).1 := by
  fun_induction drive f e now with
  | case1 f => exact .refl f
  | case2 f e leg rest legs goesOn g effects driven ih =>
      rw [driven] at ih
      exact (owns_turn f leg e now).trans ih
  | case3 f e leg rest legs waits => exact owns_turn f leg e now

theorem owns_updatePhase (e : Event) : Owns f (f.updatePhase e).2 (f.updatePhase e).1 := by
  unfold updatePhase
  split
  · exact .refl f
  · split
    · split
      · exact .one rfl rfl
      · exact .refl f
    · exact .refl f

theorem owns_process (e : Event) (now : Moment) :
    Owns f (f.process e now).2 (f.process e now).1 := by
  unfold process
  split
  · exact .refl f
  · split
    · exact owns_updatePhase f e
    · split
      · exact owns_drive f (some e) now
      · exact .refl f

theorem owns_call (call : Call) : Owns f (f.call call).2 (f.call call).1 := by
  cases call with
  | start now => exact (owns_drive f.takeOff none now).congr rfl
  | process e now => exact owns_process f e now
  | abort now =>
      refine .quiet ?_
      simp only [call, abort]
      split <;> rfl

end Owns

end Flow
end BuildPipeline
