import BuildPipeline.Proofs.Flow.Calls

/-!
Where the commands of a flow go. Whatever state a flow is in and whatever call is made on it, every
command that the call sends goes to an address of the chain of its capability
(`Flow.serves_call`). The chains never change (`Steady.chains`), so it is enough to look at each
part of a turn by itself.
-/

namespace BuildPipeline

open Time (Moment)

/-- Every command among some effects goes to an address of the chain of its capability. -/
def Chains.Serves (c : Chains) (effects : List Effect) : Prop :=
  ∀ x ∈ sends effects, x.1 ∈ c.chain x.2.kind

namespace Chains.Serves

variable {c : Chains} {early late : List Effect}

theorem quiet (silent : sends early = []) : c.Serves early := by
  intro x sent
  rw [silent] at sent
  cases sent

theorem append (first : c.Serves early) (second : c.Serves late) : c.Serves (early ++ late) := by
  intro x sent
  rw [sends_append, List.mem_append] at sent
  exact sent.elim (first x) (second x)

/-- A command to the address at some position of its chain. -/
theorem one {a : Address} {m : Command} {n : Nat} (next : c.address? m.kind n = some a) :
    c.Serves [.dispatch a m] := by
  intro x sent
  cases List.mem_singleton.1 sent
  exact List.mem_of_getElem? next

end Chains.Serves

namespace Flow

variable (f : Flow)

theorem Steady.serves {f g : Flow} {effects : List Effect} (steady : Steady f g)
    (serves : g.chains.Serves effects) : f.chains.Serves effects :=
  steady.chains ▸ serves

/-! ## Set-up and tear-down -/

/-- The commands of set-up and tear-down are of the kind of their leg; the run has no such
commands. -/
theorem serves_commandStep {leg : Leg} (step : leg ≠ .run) :
    f.chains.Serves (f.commandStep leg).effects := by
  have stepped := stepped f leg
  generalize f.commandStep leg = t at stepped
  cases stepped with
  | left => exact .quiet rfl
  | sent a next =>
      cases leg with
      | setup => exact .one next
      | run => exact absurd rfl step
      | tearDown => exact .one next

theorem sends_takeStep (e : Event) (now : Moment) : sends (f.takeStep e now).2.1 = [] := by
  unfold takeStep
  split
  · rfl
  · split <;> rfl

theorem serves_goOnTearDown (now : Moment) :
    f.chains.Serves (f.goOnTearDown now).effects := by
  have tornDown := tornDown f now
  generalize f.goOnTearDown now = t at tornDown
  cases tornDown with
  | sent a next => exact .one next
  | complete => exact .quiet rfl
  | ended => exact .quiet rfl

/-- Behind the completion of a step the flow still has its chains, and nothing was sent yet. -/
theorem serves_behind_takeStep {e : Event} {now : Moment} {g : Flow} {effects late : List Effect}
    {sound : Bool} (taken : f.clearStep.takeStep e now = (g, effects, sound))
    (serves : g.chains.Serves late) : f.chains.Serves (effects ++ late) := by
  have steady := (steady_clearStep f).trans (steady_takeStep f.clearStep e now)
  have silent := sends_takeStep f.clearStep e now
  rw [taken] at steady silent
  exact .append (.quiet silent) (steady.serves serves)

theorem serves_setupTurn (now : Moment) (e : Option Event) :
    f.chains.Serves (f.setupTurn now e).effects := by
  cases e with
  | none => exact serves_commandStep f (by decide)
  | some e =>
      simp only [setupTurn]
      rcases taken : f.clearStep.takeStep e now with ⟨g, effects, sound⟩
      cases sound with
      | true => exact serves_behind_takeStep f taken (serves_commandStep g (by decide))
      | false =>
          have silent := sends_takeStep f.clearStep e now
          rw [taken] at silent
          exact .quiet silent

theorem serves_tearDownTurn (now : Moment) (e : Option Event) :
    f.chains.Serves (f.tearDownTurn now e).effects := by
  cases e with
  | none => exact serves_goOnTearDown f now
  | some e =>
      simp only [tearDownTurn]
      rcases taken : f.clearStep.takeStep e now with ⟨g, effects, sound⟩
      cases sound with
      | true => exact serves_behind_takeStep f taken (serves_goOnTearDown g now)
      | false => exact serves_behind_takeStep f taken (.quiet rfl)

/-! ## The run -/

theorem serves_commandPhase (index position : Nat) :
    f.chains.Serves (f.commandPhase index position).2 := by
  unfold commandPhase
  split
  · rename_i a p next _
    exact .one (m := .runPhase f.nextToken f.build p) next
  · exact .quiet rfl

theorem serves_startPhase (index position : Nat) :
    f.chains.Serves (f.startPhase index position).2 := by
  unfold startPhase
  split
  · split
    · exact .quiet rfl
    · exact (steady_modifyPhase f position _).serves (serves_commandPhase _ index position)
  · exact .quiet rfl

theorem serves_startPhases (index : Nat) (positions : List Nat) :
    f.chains.Serves (f.startPhases index positions).2 := by
  induction positions generalizing f index with
  | nil => exact .quiet rfl
  | cons position positions ih =>
      have first := serves_startPhase f index position
      exact first.append ((steady_startPhase f index position).serves (ih _ (index + 1)))

theorem serves_startStage (stage : Stage) : f.chains.Serves (f.startStage stage).2 := by
  have started : f.chains.Serves (f.fanOut stage) :=
    serves_startPhases (f.armed stage) 0 stage.members
  rw [startStage_eq]
  exact started.append (.quiet rfl)

theorem sends_checkStage (stage : Stage) : sends (f.checkStage stage).effects = [] := by
  have checked := checked f stage
  generalize f.checkStage stage = t at checked
  cases checked <;> rfl

theorem serves_phasePassed (stage : Stage) (index position : Nat) (patch : PhasePatch) :
    f.chains.Serves (f.phasePassed stage index position patch).effects := by
  have passed := steady_modifyPhase f position (passedRun patch)
  unfold phasePassed
  split
  · exact .quiet (sends_checkStage _ stage)
  · exact (passed.trans (steady_modifyPhase _ _ _)).serves (serves_commandPhase _ index position)

theorem sends_phaseFailed (stage : Stage) (position : Nat) (e : Event) :
    sends (f.phaseFailed stage position e).effects = [] := by
  unfold phaseFailed
  exact sends_checkStage _ stage

theorem serves_takePhase (stage : Stage) (e : Event) :
    f.chains.Serves (f.takePhase stage e).effects := by
  unfold takePhase
  split
  · exact .quiet rfl
  · rename_i patch _
    dsimp only
    split
    · exact .quiet rfl
    · rename_i position _
      have adopted : Steady f ((f.clearLane patch.index).adoptChild e.childRepository) := by
        cases e.childRepository <;> exact ⟨rfl, rfl, rfl, rfl, Nat.le_refl _⟩
      split
      · split
        · exact adopted.serves (serves_phasePassed _ stage patch.index position patch)
        · exact .quiet (sends_phaseFailed _ stage position e)
      · exact .quiet rfl

theorem serves_runTurn (e : Option Event) : f.chains.Serves (f.runTurn e).effects := by
  unfold runTurn
  split
  · exact .quiet rfl
  · rename_i stage _ _
    exact (serves_startStage f stage).append (.quiet (sends_checkStage _ stage))
  · exact serves_takePhase f _ _

/-! ## Calls -/

theorem serves_turn (leg : Leg) (e : Option Event) (now : Moment) :
    f.chains.Serves (f.turn leg e now).effects := by
  unfold turn
  split
  · exact .quiet rfl
  · cases leg with
    | setup => exact serves_setupTurn f now e
    | run => exact serves_runTurn f e
    | tearDown => exact serves_tearDownTurn f now e

theorem serves_drive (e : Option Event) (now : Moment) :
    f.chains.Serves (f.drive e now).2 := by
  fun_induction drive f e now with
  | case1 => exact .quiet rfl
  | case2 f e leg rest legs goesOn g effects driven ih =>
      rw [driven] at ih
      exact (serves_turn f leg e now).append ((steady_turn f leg e now).serves ih)
  | case3 f e leg rest legs waits => exact serves_turn f leg e now

/-- Whatever call is made on a flow, its commands go to addresses of its chains. -/
theorem serves_call (call : Call) : f.chains.Serves (f.call call).2 := by
  cases call with
  | start now => exact serves_drive f.takeOff none now
  | abort now => exact .quiet rfl
  | process e now =>
      simp only [Flow.call, process]
      split
      · exact .quiet rfl
      · split
        · exact .quiet (sends_updatePhase f e).1
        · split
          · exact serves_drive f (some e) now
          · exact .quiet rfl

end Flow
end BuildPipeline
