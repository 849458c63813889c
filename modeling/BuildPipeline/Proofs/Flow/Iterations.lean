import BuildPipeline.Proofs.Flow.Turns
import Mathlib.Data.List.Chain

/-!
How often a flow takes a turn while it is driven. The turns of a drive are told one by one, from any
flow whatever, by a relation that does not know that they come to an end (`Rounds`). A turn that
goes on has left a leg, or has stayed on it and finished a stage (`Drops`); the queue of stages
grows only on the way out of a leg, and only by an event, which the first turn alone sees. So every
drive has its rounds, and there are no more of them than legs and stages (`drive_rounds`).
-/

namespace BuildPipeline.Flow

open Time (Moment)

/-- The stages that are laid out for an event, if it brings any. -/
def laidOut? (e : Option Event) : Option (List Stage) :=
  (e.bind (·.stages)).map fun loaded => consecutive 0 (loaded.map List.length)

/-- What a turn has behind it that goes on: a leg is left, and the event may have laid out new
stages, or a stage is finished on the same leg. -/
inductive Drops (f : Flow) (e : Option Event) (g : Flow) : Prop
  | leg (past : List Leg) (some_ : past ≠ []) (legs : f.legs = past ++ g.legs)
      (queue : g.stages = f.stages ∨ laidOut? e = some g.stages)
  | stage (gone : List Stage) (some_ : gone ≠ []) (queue : f.stages = gone ++ g.stages)
      (legs : g.legs = f.legs)

/-- The rounds of the loop: the flow and the event at the beginning of each, and what the loop ends
with. It ends where no leg is left and where a turn waits. -/
inductive Rounds (now : Moment) :
    Flow → Option Event → List (Flow × Option Event) → Flow → List Effect → Prop
  | ended {f : Flow} {e : Option Event} (legs : f.legs = []) : Rounds now f e [(f, e)] f []
  | waits {f : Flow} {e : Option Event} {leg : Leg} {rest : List Leg} (legs : f.legs = leg :: rest)
      (waits : (f.turn leg e now).goesOn = false) :
      Rounds now f e [(f, e)] (f.turn leg e now).flow (f.turn leg e now).effects
  | again {f g : Flow} {e : Option Event} {leg : Leg} {rest : List Leg}
      {rounds : List (Flow × Option Event)} {effects : List Effect}
      (legs : f.legs = leg :: rest) (goesOn : (f.turn leg e now).goesOn = true)
      (more : Rounds now (f.turn leg e now).flow none rounds g effects) :
      Rounds now f e ((f, e) :: rounds) g ((f.turn leg e now).effects ++ effects)

section Turns

variable {f g : Flow} {leg : Leg} {stage : Stage} {e : Option Event} {event : Event} {now : Moment}

/-! ## One turn -/

theorem drops_of_suffix (suffix : g.legs <:+ f.legs) (fewer : g.legs.length < f.legs.length)
    (queue : g.stages = f.stages ∨ laidOut? e = some g.stages) : Drops f e g := by
  obtain ⟨past, legs⟩ := suffix
  refine .leg past ?_ legs.symm queue
  rintro rfl
  rw [← legs] at fewer
  exact Nat.lt_irrefl _ fewer

/-- A flow that has left its leg. -/
theorem drops_leaveLeg (on : f.legs ≠ []) (legs : g.legs = f.legs)
    (queue : g.stages = f.stages ∨ laidOut? e = some g.stages) : Drops f e g.leaveLeg := by
  refine drops_of_suffix ?_ ?_ queue
  · rw [← legs]
    exact List.tail_suffix g.legs
  · rw [← legs] at on ⊢
    exact length_leaveLeg g on

theorem drops_commandStep (on : f.legs ≠ []) (legs : g.legs = f.legs)
    (queue : g.stages = f.stages ∨ laidOut? e = some g.stages)
    (goesOn : (g.commandStep leg).goesOn = true) : Drops f e (g.commandStep leg).flow := by
  rw [legs_commandStep_of_goesOn goesOn]
  exact drops_leaveLeg on legs queue

/-- The queue behind what a step brought: as it was, or laid out anew. -/
theorem stages_takeStep (f : Flow) (event : Event) (now : Moment) :
    (f.takeStep event now).1.stages = f.stages ∨
      laidOut? (some event) = some (f.takeStep event now).1.stages := by
  unfold takeStep
  split
  · exact .inl rfl
  · split
    · simp only [adopt, laidOut?, Option.bind_some]
      cases event.stages with
      | none => exact .inl rfl
      | some loaded => exact .inr rfl
    · exact .inl rfl

theorem drops_setupTurn (on : f.legs ≠ []) (goesOn : (f.setupTurn now e).goesOn = true) :
    Drops f e (f.setupTurn now e).flow := by
  cases e with
  | none => exact drops_commandStep on rfl (.inl rfl) goesOn
  | some event =>
      have legs := legs_takeStep f.clearStep event now
      have queue := stages_takeStep f.clearStep event now
      simp only [setupTurn] at goesOn ⊢
      generalize f.clearStep.takeStep event now = taken at legs queue goesOn ⊢
      obtain ⟨g, effects, _ | _⟩ := taken
      · -- a failed step leaves the run out as well
        replace legs : g.legs = f.legs := legs
        refine drops_of_suffix ?_ ?_ queue
        · simp only [Turn.again, leaveLeg]
          rw [← legs]
          exact (List.tail_suffix _).trans (List.tail_suffix _)
        · have := List.length_pos_iff.2 on
          simp only [Turn.again, leaveLeg, legs, List.length_tail]
          omega
      · exact drops_commandStep on legs queue goesOn

theorem drops_goOnTearDown (on : f.legs ≠ []) (legs : g.legs = f.legs)
    (queue : g.stages = f.stages ∨ laidOut? e = some g.stages)
    (goesOn : (g.goOnTearDown now).goesOn = true) : Drops f e (g.goOnTearDown now).flow := by
  unfold goOnTearDown at goesOn ⊢
  split at goesOn
  · rename_i more
    rw [if_pos more]
    exact drops_commandStep on legs queue goesOn
  · unfold conclude at goesOn
    split at goesOn <;> cases goesOn

theorem drops_tearDownTurn (on : f.legs ≠ []) (goesOn : (f.tearDownTurn now e).goesOn = true) :
    Drops f e (f.tearDownTurn now e).flow := by
  cases e with
  | none => exact drops_goOnTearDown on rfl (.inl rfl) goesOn
  | some event =>
      have legs := legs_takeStep f.clearStep event now
      have queue := stages_takeStep f.clearStep event now
      simp only [tearDownTurn] at goesOn ⊢
      generalize f.clearStep.takeStep event now = taken at legs queue goesOn ⊢
      obtain ⟨g, effects, _ | _⟩ := taken
      · cases goesOn
      · exact drops_goOnTearDown on legs queue goesOn

/-- A stage that is checked and over leaves the queue, and may take the ones behind it along. -/
theorem drops_checkStage (legs : g.legs = f.legs) (queue : g.stages = f.stages)
    (some_ : f.stages ≠ []) (goesOn : (g.checkStage stage).goesOn = true) :
    Drops f e (g.checkStage stage).flow := by
  have checked := checked g stage
  generalize g.checkStage stage = t at checked goesOn
  cases checked with
  | waits => cases goesOn
  | passed =>
      refine .stage [f.stages.head some_] (List.cons_ne_nil _ _) ?_ legs
      rw [List.singleton_append, Turn.again, queue, List.cons_head_tail]
  | cut => exact .stage f.stages some_ (List.append_nil _).symm legs

/-- A reply to a phase behind which a turn goes on was followed by the check of the stage. -/
theorem takePhase_of_goesOn (goesOn : (f.takePhase stage event).goesOn = true) :
    ∃ (g : Flow) (told : List Effect), g.legs = f.legs ∧ g.stages = f.stages ∧
      f.takePhase stage event = (g.checkStage stage).behind told := by
  unfold takePhase at goesOn ⊢
  split at goesOn
  · cases goesOn
  · rename_i patch phase
    dsimp only at goesOn ⊢
    split at goesOn
    · cases goesOn
    · rename_i position place
      split at goesOn
      · rename_i inside
        rw [if_pos inside]
        split at goesOn
        · rename_i success
          rw [if_pos success]
          unfold phasePassed at goesOn ⊢
          split at goesOn
          · rename_i last
            simp only [if_pos last]
            exact ⟨_, [], by simp [clearLane], by simp [clearLane], rfl⟩
          · cases goesOn
        · rename_i failure
          rw [if_neg failure]
          exact ⟨_, _, by simp [clearLane], by simp [clearLane], rfl⟩
      · cases goesOn

theorem drops_runTurn (on : f.legs ≠ []) (goesOn : (f.runTurn e).goesOn = true) :
    Drops f e (f.runTurn e).flow := by
  cases queue : f.stages with
  | nil =>
      simp only [runTurn, queue] at goesOn ⊢
      exact drops_leaveLeg on rfl (.inl rfl)
  | cons stage rest =>
      have some_ : f.stages ≠ [] := by simp [queue]
      cases e with
      | none =>
          simp only [runTurn, queue] at goesOn ⊢
          exact drops_checkStage (legs_startStage f stage) (stages_startStage f stage) some_ goesOn
      | some event =>
          simp only [runTurn, queue] at goesOn ⊢
          obtain ⟨g, told, legs, stages, eq⟩ := takePhase_of_goesOn goesOn
          rw [eq] at goesOn ⊢
          exact drops_checkStage legs stages some_ goesOn

/-- What any turn has behind it that goes on. -/
theorem drops_turn (on : f.legs ≠ []) (goesOn : (f.turn leg e now).goesOn = true) :
    Drops f e (f.turn leg e now).flow := by
  unfold turn at goesOn ⊢
  split at goesOn
  · rename_i drops
    rw [if_pos drops]
    exact drops_leaveLeg on rfl (.inl rfl)
  · rename_i keeps
    rw [if_neg keeps]
    cases leg with
    | setup => exact drops_setupTurn on goesOn
    | run => exact drops_runTurn on goesOn
    | tearDown => exact drops_tearDownTurn on goesOn

/-! ## The loop -/

/-- The number of stages that an event brings. -/
def brought (e : Option Event) : Nat :=
  ((e.bind (·.stages)).getD []).length

theorem length_consecutive (first : Nat) (sizes : List Nat) :
    (consecutive first sizes).length = sizes.length := by
  induction sizes generalizing first with
  | nil => rfl
  | cons size sizes ih => simp [consecutive, ih]

/-- What is left to do behind a turn that goes on, where no event is left to lay out stages. -/
theorem Drops.fewer (drops : Drops f e g) :
    g.legs.length + g.stages.length < f.legs.length + max f.stages.length (brought e) := by
  cases drops with
  | leg past some_ legs queue =>
      have left := List.length_pos_iff.2 some_
      have stages : g.stages.length ≤ max f.stages.length (brought e) := by
        rcases queue with same | laid
        · rw [same]
          exact Nat.le_max_left _ _
        · obtain ⟨loaded, brings, laid⟩ := Option.map_eq_some_iff.1 laid
          rw [← laid, length_consecutive, List.length_map, brought, brings]
          exact Nat.le_max_right _ _
      rw [legs, List.length_append]
      omega
  | stage gone some_ queue legs =>
      have finished := List.length_pos_iff.2 some_
      have size := congrArg List.length queue
      rw [List.length_append] at size
      rw [legs]
      omega

theorem Rounds.head? {rounds : List (Flow × Option Event)} {effects : List Effect}
    (taken : Rounds now f e rounds g effects) : rounds.head? = some (f, e) := by
  cases taken <;> rfl

/-- A drive has its rounds. -/
theorem rounds_drive (f : Flow) (e : Option Event) (now : Moment) :
    ∃ rounds, Rounds now f e rounds (f.drive e now).1 (f.drive e now).2 := by
  fun_induction drive f e now with
  | case1 f e legs => exact ⟨[(f, e)], .ended legs⟩
  | case2 f e leg rest legs goesOn g effects driven ih =>
      obtain ⟨rounds, taken⟩ := ih
      rw [driven] at taken
      exact ⟨(f, e) :: rounds, .again legs goesOn taken⟩
  | case3 f e leg rest legs waits => exact ⟨[(f, e)], .waits legs (by simpa using waits)⟩

theorem Rounds.isChain {rounds : List (Flow × Option Event)} {effects : List Effect}
    (taken : Rounds now f e rounds g effects) :
    rounds.IsChain fun a b => Drops a.1 a.2 b.1 := by
  induction taken with
  | ended => exact .singleton _
  | waits => exact .singleton _
  | again legs goesOn more ih =>
      refine List.isChain_cons.2 ⟨fun next first => ?_, ih⟩
      rw [more.head?] at first
      cases first
      exact drops_turn (by simp [legs]) goesOn

theorem Rounds.length_le {rounds : List (Flow × Option Event)} {effects : List Effect}
    (taken : Rounds now f e rounds g effects) :
    rounds.length ≤ f.legs.length + max f.stages.length (brought e) + 1 := by
  induction taken with
  | ended => simp
  | waits => simp
  | @again f g e leg rest rounds effects legs goesOn more ih =>
      have drops : Drops f e (f.turn leg e now).flow := drops_turn (by simp [legs]) goesOn
      have fewer := drops.fewer
      simp only [brought, Option.bind_none, Option.getD_none, List.length_nil,
        Nat.max_zero] at ih
      rw [List.length_cons]
      omega

/-- A drive is a loop that ends, from any flow and with any event. Each of its rounds that goes on
has left a leg, or has stayed on it and finished a stage, and there is at most one round more than
there are legs and stages, where the stages count that the event brings. -/
theorem drive_rounds (f : Flow) (e : Option Event) (now : Moment) :
    ∃ rounds, Rounds now f e rounds (f.drive e now).1 (f.drive e now).2 ∧
      rounds.IsChain (fun a b => Drops a.1 a.2 b.1) ∧
      rounds.length ≤ f.legs.length + max f.stages.length (brought e) + 1 := by
  obtain ⟨rounds, taken⟩ := rounds_drive f e now
  exact ⟨rounds, taken, taken.isChain, taken.length_le⟩

end Turns

end BuildPipeline.Flow
