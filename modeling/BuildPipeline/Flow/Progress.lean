import BuildPipeline.Flow.Drive

/-!
A failure that a flow accepts brings it nearer to its end. `weight` measures what is left: the legs,
then the stages, then the phases that are waited on together with the providers of tear-down that
were not commanded yet. `weight_process_lt` says that the measure goes down, which bounds how often
the host can answer a flow's commands with failures.
-/

namespace BuildPipeline

open Time (Moment)

namespace Flow

/-- The number of phases of the running stage that are waited on. -/
def waiting (f : Flow) : Nat :=
  f.lanes.countP (·.awaited.isSome)

/-- What is left of the way, as far as failures are concerned. -/
def weight (f : Flow) : Nat × Nat × Nat :=
  (f.legs.length, f.stages.length, f.waiting + (f.chains.count .tearDown - f.dispatched))

/-- The order on what is left. -/
abbrev Lighter : Nat × Nat × Nat → Nat × Nat × Nat → Prop :=
  Prod.Lex (· < ·) (Prod.Lex (· < ·) (· < ·))

theorem lighter_of_shorter {f g : Flow} (h : Shorter g.remaining f.remaining) :
    Lighter g.weight f.weight := by
  rcases Prod.lex_def.1 h with legs | ⟨legs, stages⟩
  · exact Prod.Lex.left _ _ legs
  · unfold weight
    rw [show g.legs.length = f.legs.length from legs]
    exact Prod.Lex.right _ (Prod.Lex.left _ _ stages)

/-- One flow has no more legs left than another, and no more stages if the legs are as many. -/
def NoLonger (g f : Flow) : Prop :=
  g.legs.length < f.legs.length ∨
    g.legs.length = f.legs.length ∧ g.stages.length ≤ f.stages.length

theorem NoLonger.refl (f : Flow) : NoLonger f f :=
  .inr ⟨rfl, Nat.le_refl _⟩

theorem NoLonger.shorter {f g h : Flow} (first : NoLonger g f)
    (then_ : Shorter f.remaining h.remaining) : Shorter g.remaining h.remaining := by
  rcases first with legs | ⟨legs, stages⟩ <;>
    rcases Prod.lex_def.1 then_ with legs' | ⟨legs', stages'⟩
  · exact shorter_of_legs (Nat.lt_trans legs legs')
  · exact shorter_of_legs (by simp only [remaining] at legs'; omega)
  · exact shorter_of_legs (by simp only [remaining] at legs'; omega)
  · exact shorter_of_stages (by simp only [remaining] at legs'; omega)
      (Nat.lt_of_le_of_lt stages stages')

theorem NoLonger.of_shorter {f g : Flow} (h : Shorter g.remaining f.remaining) : NoLonger g f := by
  rcases Prod.lex_def.1 h with legs | ⟨legs, stages⟩
  · exact .inl legs
  · exact .inr ⟨legs, Nat.le_of_lt stages⟩

/-! ## Turns without an event -/

theorem noLonger_commandStep {f : Flow} {leg : Leg} (waits : (f.commandStep leg).goesOn = false) :
    NoLonger (f.commandStep leg).flow f := by
  unfold commandStep at waits ⊢
  split at waits
  · simp [Turn.again] at waits
  · exact .inr ⟨rfl, Nat.le_refl _⟩

theorem noLonger_finish (f g : Flow) (on : f.legs ≠ []) (effects : List Effect) :
    NoLonger (Turn.wait g.finish effects).flow f :=
  .inl (List.length_pos_iff.2 on)

theorem noLonger_goOnTearDown {f : Flow} {now : Moment} (on : f.legs ≠ [])
    (waits : (f.goOnTearDown now).goesOn = false) : NoLonger (f.goOnTearDown now).flow f := by
  unfold goOnTearDown at waits ⊢
  split at waits
  · rename_i more
    rw [if_pos more]
    exact noLonger_commandStep waits
  · rename_i done
    rw [if_neg done]
    unfold conclude
    split
    · exact noLonger_finish f _ on _
    · exact noLonger_finish f _ on _

theorem stages_checkStage_of_waits {f : Flow} {stage : Stage}
    (waits : (f.checkStage stage).goesOn = false) : (f.checkStage stage).flow = f := by
  unfold checkStage at waits ⊢
  split at waits
  · simp [Turn.again] at waits
  · rename_i incomplete
    simp [incomplete, Turn.wait]

theorem noLonger_turn_none {f : Flow} {leg : Leg} {now : Moment} (on : f.legs ≠ [])
    (waits : (f.turn leg none now).goesOn = false) : NoLonger (f.turn leg none now).flow f := by
  unfold turn at waits ⊢
  split at waits
  · simp [Turn.again] at waits
  · rename_i keeps
    rw [if_neg keeps]
    cases leg with
    | setup => exact noLonger_commandStep waits
    | tearDown => exact noLonger_goOnTearDown on waits
    | run =>
      cases queued : f.stages with
      | nil => simp [runTurn, queued, Turn.again] at waits
      | cons stage rest =>
        simp only [runTurn, queued, Turn.behind] at waits ⊢
        rw [stages_checkStage_of_waits waits]
        exact .inr ⟨by simp, by simp⟩

/-- Driving a flow without an event adds nothing to what is left. -/
theorem noLonger_drive {f : Flow} {e : Option Event} {now : Moment} (quiet : e = none) :
    NoLonger (f.drive e now).1 f := by
  fun_induction drive f e now with
  | case1 => exact .refl _
  | case2 f e leg rest legs again g effects step ih =>
    subst quiet
    have nearer : NoLonger g (f.turn leg none now).flow := by
      have := ih rfl
      rwa [step] at this
    exact .of_shorter (nearer.shorter (turn_goesOn_lt (by simp [legs]) again))
  | case3 f e leg rest legs waits =>
    subst quiet
    exact noLonger_turn_none (by simp [legs]) (by simpa using waits)

/-! ## Turns that take a failure -/

theorem count_modify_clear (lanes : List Lane) (index : Nat) (token : Token)
    (awaited : lanes[index]?.bind (·.awaited) = some token) :
    (lanes.modify index fun lane => { lane with awaited := none }).countP (·.awaited.isSome) <
      lanes.countP (·.awaited.isSome) := by
  induction lanes generalizing index with
  | nil => simp at awaited
  | cons lane lanes ih =>
    cases index with
    | zero =>
      simp at awaited
      simp [List.modify_cons, awaited]
    | succ index =>
      have := ih index (by simpa using awaited)
      simp only [List.modify_succ_cons, List.countP_cons]
      omega

theorem waiting_clearLane_lt {f : Flow} {index : Nat} {token : Token}
    (awaited : f.awaited? index = some token) : (f.clearLane index).waiting < f.waiting :=
  count_modify_clear f.lanes index token awaited

@[simp]
theorem lanes_modifyPhase (f : Flow) (position : Nat) (change : Phase → Phase) :
    (f.modifyPhase position change).lanes = f.lanes :=
  rfl

@[simp]
theorem lanes_adoptChild (f : Flow) (child : Option Repository) :
    (f.adoptChild child).lanes = f.lanes := by
  cases child <;> rfl

@[simp]
theorem chains_adoptChild (f : Flow) (child : Option Repository) :
    (f.adoptChild child).chains = f.chains := by
  cases child <;> rfl

@[simp]
theorem dispatched_adoptChild (f : Flow) (child : Option Repository) :
    (f.adoptChild child).dispatched = f.dispatched := by
  cases child <;> rfl

theorem lighter_of_clearLane {f g : Flow} {index : Nat} {token : Token}
    (awaited : f.awaited? index = some token) (legs : g.legs = f.legs)
    (stages : g.stages = f.stages) (lanes : g.lanes = (f.clearLane index).lanes)
    (chains : g.chains = f.chains) (dispatched : g.dispatched = f.dispatched) :
    Lighter g.weight f.weight := by
  have fewer := waiting_clearLane_lt awaited
  have same : g.waiting = (f.clearLane index).waiting := by simp [waiting, lanes]
  unfold weight
  rw [legs, stages, chains, dispatched, same]
  exact Prod.Lex.right _ (Prod.Lex.right _ (by omega))

/-- The turn of an accepted failure on the run, where it waits, has one phase less to wait on. -/
theorem lighter_runTurn {f : Flow} {e : Event} {patch : PhasePatch} (phase : e.phase = some patch)
    (awaited : f.awaited? patch.index = some e.token) (fails : e.isSuccess = false)
    (waits : (f.runTurn (some e)).goesOn = false) :
    Lighter (f.runTurn (some e)).flow.weight f.weight := by
  cases queued : f.stages with
  | nil => simp [runTurn, queued, Turn.again] at waits
  | cons stage rest =>
    simp only [runTurn, queued, takePhase, phase, fails] at waits ⊢
    cases position : stage.position? patch.index with
    | none => exact lighter_of_clearLane awaited rfl rfl rfl rfl rfl
    | some position =>
      simp only [position] at waits ⊢
      split at waits
      · rename_i inside
        simp only [inside, if_true] at waits ⊢
        simp only [Bool.false_eq_true, if_false, phaseFailed, Turn.behind] at waits ⊢
        rw [stages_checkStage_of_waits waits]
        apply lighter_of_clearLane awaited <;> simp [clearLane, modifyPhase]
      · rename_i outside
        simp only [outside, if_false]
        apply lighter_of_clearLane awaited <;> simp [clearLane, Turn.wait]

/-- The turn of an accepted failure on tear-down, where it waits, has commanded one more provider
or ended the flow. -/
theorem lighter_tearDownTurn {f : Flow} {e : Event} {now : Moment} (on : f.legs ≠ [])
    (fails : e.isSuccess = false) (waits : (f.tearDownTurn now (some e)).goesOn = false) :
    Lighter (f.tearDownTurn now (some e)).flow.weight f.weight := by
  have positive := List.length_pos_iff.2 on
  simp only [tearDownTurn, takeStep, clearStep, fails] at waits ⊢
  by_cases aborted : f.aborted = true
  · simp only [aborted, if_true] at waits ⊢
    simp only [Turn.behind, goOnTearDown] at waits ⊢
    split at waits
    · rename_i more
      rw [if_pos more]
      unfold commandStep at waits ⊢
      split at waits
      · simp [Turn.again] at waits
      · exact Prod.Lex.right _ (Prod.Lex.right _
          (show f.waiting + (f.chains.count .tearDown - (f.dispatched + 1)) <
            f.waiting + (f.chains.count .tearDown - f.dispatched) by omega))
    · rename_i done
      rw [if_neg done]
      unfold conclude
      split <;> exact Prod.Lex.left _ _ positive
  · simp only [aborted, Bool.false_eq_true, if_false] at waits ⊢
    exact Prod.Lex.left _ _ positive

/-- The turn of an accepted failure, where it waits, brings the flow nearer to its end. -/
theorem lighter_turn_some {f : Flow} {leg : Leg} {e : Event} {now : Moment}
    (legs : f.leg? = some leg) (accepted : f.accepts e = true) (fails : e.isSuccess = false)
    (waits : (f.turn leg (some e) now).goesOn = false) :
    Lighter (f.turn leg (some e) now).flow.weight f.weight := by
  have on : f.legs ≠ [] := by intro none_left; simp [leg?, none_left] at legs
  unfold turn at waits ⊢
  split at waits
  · simp [Turn.again] at waits
  · rename_i keeps
    rw [if_neg keeps]
    cases leg with
    | setup =>
      have running : f.aborted = false := by simpa using keeps
      simp [setupTurn, takeStep, clearStep, running, fails, Turn.again] at waits
    | tearDown => exact lighter_tearDownTurn on fails waits
    | run =>
      simp only [accepts, legs] at accepted
      split at accepted
      · simp at accepted
      · cases kind : e.kind <;> simp only [kind] at accepted <;> try contradiction
        cases phase : e.phase with
        | none => simp [phase] at accepted
        | some patch =>
          simp only [phase, beq_iff_eq] at accepted
          exact lighter_runTurn phase accepted fails waits

/-- A failure that the flow accepts brings it nearer to its end. -/
theorem weight_process_lt {f : Flow} {e : Event} {now : Moment} (accepted : f.accepts e = true)
    (fails : e.isSuccess = false) : Lighter (f.process e now).1.weight f.weight := by
  have open_ : f.ended = false := by
    cases h : f.ended with
    | false => rfl
    | true => simp [accepts, h] at accepted
  have completes : e.kind ≠ .phaseUpdate := by
    intro update
    unfold accepts at accepted
    rw [open_, update] at accepted
    simp only [Bool.false_eq_true, if_false] at accepted
    split at accepted <;> simp_all
  simp only [process, open_, completes, accepted, Bool.false_eq_true, if_false, if_true]
  unfold drive
  split
  · rename_i none_left
    unfold accepts at accepted
    simp [open_, leg?, none_left] at accepted
  · rename_i leg rest legs
    have on : f.legs ≠ [] := by simp [legs]
    split
    · rename_i again
      exact lighter_of_shorter
        ((noLonger_drive rfl).shorter (turn_goesOn_lt on again))
    · rename_i waits
      exact lighter_turn_some (by simp [leg?, legs]) accepted fails (by simpa using waits)

end Flow
end BuildPipeline
