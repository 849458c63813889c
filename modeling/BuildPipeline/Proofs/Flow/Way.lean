import BuildPipeline.Proofs.Flow.Binding

/-!
How far a flow has come, whatever events it was handed. A flow goes from set-up over the run to
tear-down and is over behind it; before tear-down it has sent no command of tear-down, and on
tear-down it has counted those that it sent (`Flow.Stands`). Every turn keeps to this, and so does
every course (`Course.Unchecked.stands`).
-/

namespace BuildPipeline

open Time (Moment)

/-- The number of tear-down commands among some commands. -/
def tearDowns (sent : List Command) : Nat :=
  sent.countP (·.kind = .tearDown)

theorem tearDowns_append (one two : List Command) :
    tearDowns (one ++ two) = tearDowns one + tearDowns two :=
  List.countP_append

theorem tearDowns_of_kind {sent : List Command} (kind : ∀ m ∈ sent, m.kind ≠ .tearDown) :
    tearDowns sent = 0 :=
  List.countP_eq_zero.2 fun m mem => by simp [kind m mem]

namespace Flow

/-- Where a flow stands that has sent so many commands of tear-down. -/
inductive Stands (f : Flow) : Nat → Prop
  | setup (legs : f.legs = [.setup, .run, .tearDown]) (going : f.ended = false) : Stands f 0
  | run (legs : f.legs = [.run, .tearDown]) (going : f.ended = false) : Stands f 0
  | tearDown (legs : f.legs = [.tearDown]) (going : f.ended = false)
      (within : f.dispatched ≤ f.chains.count .tearDown) : Stands f f.dispatched
  | finished (legs : f.legs = []) (ended : f.ended = true) (torn : Nat) : Stands f torn

/-- A part of a turn on the run neither leaves the leg nor ends the flow, and commands nothing but
phases. -/
structure Runs (f : Flow) (effects : List Effect) (g : Flow) : Prop where
  legs : g.legs = f.legs
  ended : g.ended = f.ended
  kinds : ∀ m ∈ commands effects, m.kind = .runPhase

section Runs

variable {f g h : Flow} {one two : List Effect}

theorem Runs.quiet {effects : List Effect} (silent : commands effects = []) (legs : g.legs = f.legs)
    (ended : g.ended = f.ended) : Runs f effects g :=
  ⟨legs, ended, fun _ mem => absurd mem (silent ▸ List.not_mem_nil)⟩

theorem Runs.refl (f : Flow) : Runs f [] f :=
  .quiet rfl rfl rfl

theorem Runs.trans (first : Runs f one g) (second : Runs g two h) : Runs f (one ++ two) h := by
  refine ⟨second.legs.trans first.legs, second.ended.trans first.ended, fun m mem => ?_⟩
  rw [commands_append, List.mem_append] at mem
  exact mem.elim (first.kinds m) (second.kinds m)

theorem runs_modifyPhase (f : Flow) (position : Nat) (change : Phase → Phase) :
    Runs f [] (f.modifyPhase position change) :=
  .quiet rfl rfl rfl

theorem runs_commandPhase (f : Flow) (index position : Nat) :
    Runs f (f.commandPhase index position).2 (f.commandPhase index position).1 := by
  unfold commandPhase
  split
  · refine ⟨rfl, rfl, fun m mem => ?_⟩
    rw [List.mem_singleton.1 mem]
    rfl
  · exact .refl f

theorem runs_startPhase (f : Flow) (index position : Nat) :
    Runs f (f.startPhase index position).2 (f.startPhase index position).1 := by
  have begun := runs_modifyPhase f position (·.beginRun index)
  unfold startPhase
  split
  · split
    · exact begun.trans (runs_modifyPhase _ _ _)
    · exact begun.trans (runs_commandPhase _ _ _)
  · exact .refl f

theorem runs_startPhases (f : Flow) (index : Nat) (positions : List Nat) :
    Runs f (f.startPhases index positions).2 (f.startPhases index positions).1 := by
  induction positions generalizing f index with
  | nil => exact .refl f
  | cons position positions ih => exact (runs_startPhase f index position).trans (ih _ _)

theorem runs_startStage (f : Flow) (stage : Stage) :
    Runs f (f.startStage stage).2 (f.startStage stage).1 := by
  have armed : Runs f [] (f.armed stage) := .quiet rfl rfl rfl
  rw [startStage_eq]
  exact (armed.trans (runs_startPhases _ 0 stage.members)).trans (.quiet rfl rfl rfl)

theorem runs_checkStage (f : Flow) (stage : Stage) :
    Runs f (f.checkStage stage).effects (f.checkStage stage).flow := by
  have checked := checked f stage
  generalize f.checkStage stage = t at checked
  cases checked with
  | waits => exact .refl f
  | passed => exact .quiet rfl rfl rfl
  | cut => exact .quiet rfl rfl rfl

theorem runs_phasePassed (f : Flow) (stage : Stage) (index position : Nat) (patch : PhasePatch) :
    Runs f (f.phasePassed stage index position patch).effects
      (f.phasePassed stage index position patch).flow := by
  have passed := runs_modifyPhase f position (passedRun patch)
  unfold phasePassed
  split
  · exact (passed.trans (runs_modifyPhase _ _ _)).trans (runs_checkStage _ stage)
  · exact (passed.trans (runs_modifyPhase _ _ _)).trans (runs_commandPhase _ index position)

theorem runs_phaseFailed (f : Flow) (stage : Stage) (position : Nat) (e : Event) :
    Runs f (f.phaseFailed stage position e).effects (f.phaseFailed stage position e).flow := by
  have failed : ∀ b : Build, Runs f [.publish b] { f with build := b } :=
    fun _ => .quiet rfl rfl rfl
  exact (failed _).trans (runs_checkStage _ stage)

theorem runs_takePhase (f : Flow) (stage : Stage) (e : Event) :
    Runs f (f.takePhase stage e).effects (f.takePhase stage e).flow := by
  unfold takePhase
  dsimp only
  split
  · exact .refl f
  · rename_i patch _
    have cleared : Runs f [] (f.clearLane patch.index) := .quiet rfl rfl rfl
    split
    · exact cleared
    · rename_i position _
      have adopted : Runs f [] ((f.clearLane patch.index).adoptChild e.childRepository) := by
        cases e.childRepository <;> exact .quiet rfl rfl rfl
      split
      · split
        · exact adopted.trans (runs_phasePassed _ stage patch.index position patch)
        · exact adopted.trans (runs_phaseFailed _ stage position e)
      · exact adopted

end Runs

section Stands

variable {f g : Flow} {leg : Leg} {rest : List Leg} {torn : Nat} {e : Option Event} {now : Moment}

/-- A flow that stands on a leg. -/
theorem Stands.legs_eq (stands : Stands f torn) (on : f.leg? = some leg) :
    f.legs = match leg with
      | .setup => [.setup, .run, .tearDown]
      | .run => [.run, .tearDown]
      | .tearDown => [.tearDown] := by
  cases stands with
  | setup legs => cases (leg?_of_legs legs).symm.trans on; exact legs
  | run legs => cases (leg?_of_legs legs).symm.trans on; exact legs
  | tearDown legs => cases (leg?_of_legs legs).symm.trans on; exact legs
  | finished legs => simp [leg?, legs] at on

theorem Stands.congr (stands : Stands f torn) (legs : g.legs = f.legs) (ended : g.ended = f.ended)
    (count : g.dispatched = f.dispatched) (chains : g.chains = f.chains) : Stands g torn := by
  cases stands with
  | setup way going => exact .setup (legs.trans way) (ended.trans going)
  | run way going => exact .run (legs.trans way) (ended.trans going)
  | tearDown way going within =>
      rw [← count] at within ⊢
      exact .tearDown (legs.trans way) (ended.trans going) (chains ▸ within)
  | finished way over_ => exact .finished (legs.trans way) (ended.trans over_) torn

theorem Stands.runs {effects : List Effect} (stands : Stands f torn)
    (legs : f.legs = .run :: rest) (runs : Runs f effects g) :
    Stands g (torn + tearDowns (commands effects)) := by
  have none_ : tearDowns (commands effects) = 0 :=
    tearDowns_of_kind fun m mem => by simp [runs.kinds m mem]
  have way := stands.legs_eq (leg?_of_legs legs)
  rw [none_]
  cases stands with
  | setup legs' => cases legs'.symm.trans way
  | run _ going => exact .run (runs.legs.trans way) (runs.ended.trans going)
  | tearDown legs' => cases legs'.symm.trans way
  | finished legs' => cases legs'.symm.trans way

/-- A flow that leaves set-up or the run has not begun to tear down. -/
theorem Stands.leaveLeg (stands : Stands f torn) (legs : f.legs = leg :: rest)
    (ne : leg ≠ .tearDown) : Stands f.leaveLeg torn := by
  cases stands with
  | setup legs' going => exact .run (by simp [Flow.leaveLeg, legs']) going
  | run legs' going => exact .tearDown (by simp [Flow.leaveLeg, legs']) going (Nat.zero_le _)
  | tearDown legs' => cases legs'.symm.trans legs; exact absurd rfl ne
  | finished legs' => cases legs'.symm.trans legs

theorem Stands.tornDown {t : Turn} (stands : Stands f torn) (legs : f.legs = [.tearDown])
    (turn : TornDown f now t) :
    Stands t.flow (torn + tearDowns (commands t.effects)) := by
  cases turn with
  | sent a next =>
      cases stands with
      | setup legs' => cases legs'.symm.trans legs
      | run legs' => cases legs'.symm.trans legs
      | tearDown _ going =>
          exact .tearDown (f := f.commanded) legs going (List.getElem?_eq_some_iff.1 next).1
      | finished legs' => cases legs'.symm.trans legs
  | complete => exact .finished rfl rfl _
  | ended => exact .finished rfl rfl _

/-- What a flow makes of the reply to a step leaves it where it stands, and commands nothing. -/
theorem Stands.takeStep (stands : Stands f torn) (e : Event) (now : Moment) :
    Stands (f.takeStep e now).1 torn ∧ (f.takeStep e now).1.legs = f.legs ∧
      commands (f.takeStep e now).2.1 = [] := by
  unfold Flow.takeStep
  split
  · exact ⟨stands, rfl, rfl⟩
  · split
    · unfold adopt loadStages?
      split <;> exact ⟨stands.congr rfl rfl rfl rfl, rfl, rfl⟩
    · exact ⟨stands.congr rfl rfl rfl rfl, rfl, rfl⟩

theorem Stands.commandSetup (stands : Stands f torn) (legs : f.legs = .setup :: rest) :
    Stands (f.commandStep .setup).flow
      (torn + tearDowns (commands (f.commandStep .setup).effects)) := by
  have stepped := stepped f .setup
  generalize f.commandStep .setup = t at stepped
  cases stepped with
  | sent a next =>
      cases stands with
      | setup way going => exact .setup (f := f.commanded) way going
      | run way => cases way.symm.trans legs
      | tearDown way => cases way.symm.trans legs
      | finished way => cases way.symm.trans legs
  | left => exact stands.leaveLeg legs (by decide)

theorem Stands.setupTurn (stands : Stands f torn) (legs : f.legs = .setup :: rest) :
    Stands (f.setupTurn now e).flow
      (torn + tearDowns (commands (f.setupTurn now e).effects)) := by
  cases e with
  | none => exact stands.commandSetup legs
  | some e =>
      have cleared : Stands f.clearStep torn := stands.congr rfl rfl rfl rfl
      simp only [Flow.setupTurn]
      rcases step : f.clearStep.takeStep e now with ⟨g, effects, sound⟩
      obtain ⟨stands, way, silent⟩ := step ▸ cleared.takeStep e now
      replace way : g.legs = .setup :: rest := way.trans legs
      cases sound with
      | true =>
          simp only [Turn.behind, commands_append]
          rw [silent]
          exact stands.commandSetup way
      | false =>
          simp only [Turn.again, silent]
          -- a failed step skips the run as well
          cases stands with
          | setup way' going =>
              exact .tearDown (congrArg (·.tail.tail) way') going (Nat.zero_le _)
          | run way' => cases way'.symm.trans way
          | tearDown way' => cases way'.symm.trans way
          | finished way' => cases way'.symm.trans way

theorem Stands.tearDownTurn (stands : Stands f torn) (legs : f.legs = [.tearDown]) :
    Stands (f.tearDownTurn now e).flow
      (torn + tearDowns (commands (f.tearDownTurn now e).effects)) := by
  cases e with
  | none => exact stands.tornDown legs (Flow.tornDown f now)
  | some e =>
      have cleared : Stands f.clearStep torn := stands.congr rfl rfl rfl rfl
      simp only [Flow.tearDownTurn]
      rcases step : f.clearStep.takeStep e now with ⟨g, effects, sound⟩
      obtain ⟨stands, way, silent⟩ := step ▸ cleared.takeStep e now
      cases sound with
      | true =>
          simp only [Turn.behind, commands_append]
          rw [silent]
          exact stands.tornDown (way.trans legs) (Flow.tornDown g now)
      | false => exact .finished rfl rfl _

/-- Every turn leaves the flow where it stands, or one leg further. -/
theorem Stands.turn (stands : Stands f torn) (legs : f.legs = leg :: rest) :
    Stands (f.turn leg e now).flow
      (torn + tearDowns (commands (f.turn leg e now).effects)) := by
  unfold Flow.turn
  split
  · rename_i drops
    exact stands.leaveLeg legs drops.2
  · cases leg with
    | setup => exact stands.setupTurn legs
    | tearDown => exact stands.tearDownTurn (stands.legs_eq (leg?_of_legs legs))
    | run =>
        simp only [runTurn]
        split
        · exact stands.leaveLeg legs (by decide)
        · rename_i stage _ _
          exact stands.runs legs ((runs_startStage f stage).trans (runs_checkStage _ stage))
        · rename_i stage _ e _
          exact stands.runs legs (runs_takePhase f stage e)

theorem Stands.drive (stands : Stands f torn) (e : Option Event) (now : Moment) :
    Stands (f.drive e now).1 (torn + tearDowns (commands (f.drive e now).2)) := by
  fun_induction Flow.drive f e now generalizing torn with
  | case1 => exact stands
  | case2 f e leg rest legs goesOn g effects driven ih =>
      have next := ih (stands.turn legs)
      rw [driven] at next
      rwa [commands_append, tearDowns_append, ← Nat.add_assoc]
  | case3 f e leg rest legs waits => exact stands.turn legs

end Stands

/-- What becomes of a flow that does not accept an event: an update may change the container of a
phase of the running stage. -/
inductive Ignores (f : Flow) : Flow × List Effect → Prop
  | same : Ignores f (f, [])
  | updates (position : Nat) (patch : PhasePatch) (stage : Stage) (on : f.leg? = some .run)
      (head : f.stages.head? = some stage) (member : position ∈ stage.members) :
      Ignores f (f.modifyPhase position (·.applyContainer patch),
        [(f.modifyPhase position (·.applyContainer patch)).snapshot])

theorem ignores_of_rejected {f : Flow} {e : Event} (rejected : f.accepts e = false)
    (now : Moment) : Ignores f (f.process e now) := by
  unfold process
  split
  · exact .same
  · split
    · unfold updatePhase
      split
      · exact .same
      · rename_i patch _
        split
        · rename_i own
          split
          · rename_i position place
            obtain ⟨place, -⟩ := Option.filter_eq_some_iff.1 place
            rcases Option.bind_eq_some_iff.1 place with ⟨stage, head, member⟩
            exact .updates position patch stage own.2.2.1 head (List.mem_of_getElem? member)
          · exact .same
        · exact .same
    · rw [rejected]
      exact .same

theorem Stands.call {f : Flow} {torn : Nat} (stands : Stands f torn) (call : Call) :
    Stands (f.call call).1 (torn + tearDowns (commands (f.call call).2)) := by
  cases call with
  | start now => exact (stands.congr (g := f.takeOff) rfl rfl rfl rfl).drive none now
  | process e now =>
      cases accepted : f.accepts e with
      | true =>
          have driven := stands.drive (some e) now
          rwa [← process_of_accepted accepted] at driven
      | false =>
          have ignores := ignores_of_rejected accepted now
          change Stands (f.process e now).1 (torn + tearDowns (commands (f.process e now).2))
          generalize f.process e now = r at ignores
          cases ignores with
          | same => exact stands
          | updates => exact stands.congr rfl rfl rfl rfl
  | abort now =>
      change Stands (f.abort now).1 torn
      unfold Flow.abort
      split
      · exact stands
      · exact stands.congr rfl rfl rfl rfl

end Flow

namespace Course

/-- A flow counts the commands of tear-down that it sends, whatever events it is handed. -/
theorem Unchecked.stands {build : Build} {script : Option String} {chains : Chains} {c : Course}
    (run : Unchecked build script chains c) : c.flow.Stands (tearDowns c.commands) := by
  have next : ∀ {c : Course} (call : Call), c.flow.Stands (tearDowns c.commands) →
      (c.then_ call).flow.Stands (tearDowns (c.then_ call).commands) := by
    intro c call stands
    rw [commands_then_, tearDowns_append]
    exact stands.call call
  induction run with
  | start now => exact next _ (.setup rfl rfl)
  | step _ call _ stands => exact next call stands

end Course
end BuildPipeline
