import BuildPipeline.Flow.Turn

/-!
The calls on a flow. Starting a flow, or handing it an event that it accepts, drives it: it takes
turns until it waits or is over. `Turn.goesOn_lt` says why that comes to an end: a turn that goes
on has left a leg, or has stayed on its leg and finished a stage.

Aborting is lazy. The build is canceled at once, but the flow leaves what is left of set-up and run
only when the next event arrives.
-/

namespace BuildPipeline

open Time (Moment)

namespace Flow

/-- What is left of the way: the legs, and the stages on the current leg. -/
def remaining (f : Flow) : Nat × Nat :=
  (f.legs.length, f.stages.length)

/-- The order on what is left of the way. -/
abbrev Shorter : Nat × Nat → Nat × Nat → Prop :=
  Prod.Lex (· < ·) (· < ·)

theorem shorter_of_legs {f g : Flow} (h : g.legs.length < f.legs.length) :
    Shorter g.remaining f.remaining :=
  Prod.Lex.left _ _ h

theorem shorter_of_stages {f g : Flow} (legs : g.legs.length = f.legs.length)
    (h : g.stages.length < f.stages.length) : Shorter g.remaining f.remaining := by
  unfold remaining
  rw [legs]
  exact Prod.Lex.right _ h

/-! ## What the parts of a turn leave of the way -/

theorem length_leaveLeg (f : Flow) (on : f.legs ≠ []) :
    f.leaveLeg.legs.length < f.legs.length := by
  cases h : f.legs with
  | nil => exact absurd h on
  | cons leg rest => simp [leaveLeg, h]

theorem legs_commandStep_of_goesOn {f : Flow} {leg : Leg} (h : (f.commandStep leg).goesOn = true) :
    (f.commandStep leg).flow = f.leaveLeg := by
  unfold commandStep at h ⊢
  split at h
  · simp_all [Turn.again]
  · simp [Turn.wait] at h

@[simp]
theorem legs_loadStages? (f : Flow) (stages : Option (List (List Phase))) :
    (f.loadStages? stages).legs = f.legs := by
  cases stages <;> rfl

@[simp]
theorem legs_adopt (f : Flow) (e : Event) : (f.adopt e).legs = f.legs := by
  simp [adopt]

@[simp]
theorem legs_takeStep (f : Flow) (e : Event) (now : Moment) :
    (f.takeStep e now).1.legs = f.legs := by
  unfold takeStep
  split
  · rfl
  · split
    · simp
    · rfl

@[simp]
theorem legs_modifyPhase (f : Flow) (position : Nat) (change : Phase → Phase) :
    (f.modifyPhase position change).legs = f.legs :=
  rfl

@[simp]
theorem stages_modifyPhase (f : Flow) (position : Nat) (change : Phase → Phase) :
    (f.modifyPhase position change).stages = f.stages :=
  rfl

@[simp]
theorem legs_commandPhase (f : Flow) (index position : Nat) :
    (f.commandPhase index position).1.legs = f.legs := by
  unfold commandPhase; split <;> rfl

@[simp]
theorem stages_commandPhase (f : Flow) (index position : Nat) :
    (f.commandPhase index position).1.stages = f.stages := by
  unfold commandPhase; split <;> rfl

@[simp]
theorem legs_startPhase (f : Flow) (index position : Nat) :
    (f.startPhase index position).1.legs = f.legs := by
  unfold startPhase; repeat' split
  all_goals simp

@[simp]
theorem stages_startPhase (f : Flow) (index position : Nat) :
    (f.startPhase index position).1.stages = f.stages := by
  unfold startPhase; repeat' split
  all_goals simp

@[simp]
theorem legs_startPhases (f : Flow) (index : Nat) (positions : List Nat) :
    (f.startPhases index positions).1.legs = f.legs := by
  induction positions generalizing f index with
  | nil => rfl
  | cons position positions ih => simp [startPhases, ih]

@[simp]
theorem stages_startPhases (f : Flow) (index : Nat) (positions : List Nat) :
    (f.startPhases index positions).1.stages = f.stages := by
  induction positions generalizing f index with
  | nil => rfl
  | cons position positions ih => simp [startPhases, ih]

@[simp]
theorem legs_startStage (f : Flow) (stage : Stage) : (f.startStage stage).1.legs = f.legs := by
  simp [startStage]

@[simp]
theorem stages_startStage (f : Flow) (stage : Stage) :
    (f.startStage stage).1.stages = f.stages := by
  simp [startStage]

@[simp]
theorem legs_cancelQueued (f : Flow) : f.cancelQueued.legs = f.legs := by
  have step : ∀ (positions : List Nat) (g : Flow),
      (positions.foldl cancelPhase g).legs = g.legs := by
    intro positions
    induction positions with
    | nil => intro g; rfl
    | cons position positions ih => intro g; simp [ih, cancelPhase]
  simp [cancelQueued, step]

@[simp]
theorem stages_cancelQueued (f : Flow) : f.cancelQueued.stages = [] := by
  simp [cancelQueued]

@[simp]
theorem legs_checkStage (f : Flow) (stage : Stage) : (f.checkStage stage).flow.legs = f.legs := by
  unfold checkStage
  split
  · simp only [Turn.again]; split <;> simp
  · rfl

/-- A stage that is checked and over has left the queue. -/
theorem stages_checkStage_of_goesOn {f : Flow} {stage : Stage}
    (h : (f.checkStage stage).goesOn = true) (queued : f.stages ≠ []) :
    (f.checkStage stage).flow.stages.length < f.stages.length := by
  unfold checkStage at h ⊢
  split at h
  · rename_i complete
    have := List.length_pos_iff.2 queued
    simp only [complete, if_true, Turn.again]
    split <;> simp <;> omega
  · simp [Turn.wait] at h

@[simp]
theorem legs_adoptChild (f : Flow) (child : Option Repository) :
    (f.adoptChild child).legs = f.legs := by
  cases child <;> rfl

@[simp]
theorem stages_adoptChild (f : Flow) (child : Option Repository) :
    (f.adoptChild child).stages = f.stages := by
  cases child <;> rfl

/-! ## Turns that go on -/

theorem setupTurn_goesOn_lt {f : Flow} {now : Moment} {e : Option Event} (on : f.legs ≠ [])
    (h : (f.setupTurn now e).goesOn = true) :
    Shorter (f.setupTurn now e).flow.remaining f.remaining := by
  apply shorter_of_legs
  cases e with
  | none =>
    simp only [setupTurn] at h ⊢
    rw [legs_commandStep_of_goesOn h]
    exact length_leaveLeg f on
  | some e =>
    have legs := legs_takeStep f.clearStep e now
    simp only [setupTurn] at h ⊢
    rcases step : f.clearStep.takeStep e now with ⟨g, effects, ok⟩
    rw [step] at h legs
    replace legs : g.legs = f.legs := legs
    cases ok with
    | true =>
      simp only [Turn.behind] at h ⊢
      rw [legs_commandStep_of_goesOn h, ← legs]
      exact length_leaveLeg g (legs ▸ on)
    | false =>
      have := List.length_pos_iff.2 on
      simp [Turn.again, leaveLeg, legs]
      omega

theorem runTurn_goesOn_lt {f : Flow} {e : Option Event} (on : f.legs ≠ [])
    (h : (f.runTurn e).goesOn = true) : Shorter (f.runTurn e).flow.remaining f.remaining := by
  cases queued : f.stages with
  | nil =>
    apply shorter_of_legs
    simpa [runTurn, queued, Turn.again] using length_leaveLeg f on
  | cons stage rest =>
    have some_stage : f.stages ≠ [] := by simp [queued]
    cases e with
    | none =>
      simp only [runTurn, queued, Turn.behind] at h ⊢
      apply shorter_of_stages
      · simp
      · simpa using stages_checkStage_of_goesOn h (by simpa using some_stage)
    | some e =>
      simp only [runTurn, queued] at h ⊢
      unfold takePhase at h ⊢
      cases patch : e.phase with
      | none => simp [patch, Turn.wait] at h
      | some patch =>
        simp only [patch] at h ⊢
        split at h
        · simp [Turn.wait] at h
        · rename_i position found
          split at h
          · rename_i inside
            simp only [inside, if_true]
            split at h
            · rename_i success
              simp only [success, if_true]
              unfold phasePassed at h ⊢
              split at h
              · rename_i last
                simp only [last, if_true]
                apply shorter_of_stages
                · simp [clearLane]
                · simpa [clearLane] using
                    stages_checkStage_of_goesOn h (by simpa [clearLane] using some_stage)
              · simp [Turn.wait] at h
            · rename_i failure
              simp only [failure]
              simp only [phaseFailed, Turn.behind] at h ⊢
              apply shorter_of_stages
              · simp [clearLane]
              · simpa [clearLane] using
                  stages_checkStage_of_goesOn h (by simpa [clearLane] using some_stage)
          · simp [Turn.wait] at h

theorem tearDownTurn_goesOn_lt {f : Flow} {now : Moment} {e : Option Event} (on : f.legs ≠ [])
    (h : (f.tearDownTurn now e).goesOn = true) :
    Shorter (f.tearDownTurn now e).flow.remaining f.remaining := by
  have goOn : ∀ g : Flow, g.legs = f.legs → (g.goOnTearDown now).goesOn = true →
      (g.goOnTearDown now).flow.legs.length < f.legs.length := by
    intro g legs h
    unfold goOnTearDown at h ⊢
    split at h
    · rename_i more
      rw [if_pos more, legs_commandStep_of_goesOn h, ← legs]
      exact length_leaveLeg g (legs ▸ on)
    · unfold conclude at h
      split at h <;> simp [Turn.wait] at h
  apply shorter_of_legs
  cases e with
  | none => exact goOn f rfl h
  | some e =>
    have legs := legs_takeStep f.clearStep e now
    simp only [tearDownTurn] at h ⊢
    rcases step : f.clearStep.takeStep e now with ⟨g, effects, ok⟩
    rw [step] at h legs
    replace legs : g.legs = f.legs := legs
    cases ok with
    | true => exact goOn g legs h
    | false => simp [Turn.wait] at h

/-- A turn that goes on has left a leg, or stayed on it and finished a stage. -/
theorem turn_goesOn_lt {f : Flow} {leg : Leg} {e : Option Event} {now : Moment} (on : f.legs ≠ [])
    (h : (f.turn leg e now).goesOn = true) :
    Shorter (f.turn leg e now).flow.remaining f.remaining := by
  unfold turn at h ⊢
  split at h
  · rename_i drops
    rw [if_pos drops]
    exact shorter_of_legs (length_leaveLeg f on)
  · rename_i keeps
    rw [if_neg keeps]
    cases leg with
    | setup => exact setupTurn_goesOn_lt on h
    | run => exact runTurn_goesOn_lt on h
    | tearDown => exact tearDownTurn_goesOn_lt on h

/-! ## Calls -/

/-- Takes turns until the flow waits or is over. Only the first turn sees the event. -/
def drive (f : Flow) (e : Option Event) (now : Moment) : Flow × List Effect :=
  match _legs : f.legs with
  | [] => (f, [])
  | leg :: _ =>
    if _again : (f.turn leg e now).goesOn = true then
      let (g, effects) := drive (f.turn leg e now).flow none now
      (g, (f.turn leg e now).effects ++ effects)
    else ((f.turn leg e now).flow, (f.turn leg e now).effects)
termination_by f.remaining
decreasing_by exact turn_goesOn_lt (by simp [_legs]) _again

/-- Puts the build in flight and drives the flow. -/
def start (f : Flow) (now : Moment) : Flow × List Effect :=
  { f with build := { f.build with status := .inFlight } }.drive none now

/-- Cancels the build. Only the first abort does anything; it gives the containers of the phases
that it cancels. -/
def abort (f : Flow) (now : Moment) : Flow × List String :=
  if f.aborted then (f, [])
  else
    ({ f with aborted := true, build := f.build.markAborted now }, f.build.cancellableContainers)

/-- Whether the token was issued for the phase at `index` of the running stage. -/
def issuedFor (f : Flow) (index : Nat) (token : Token) : Bool :=
  match f.lanes[index]? with
  | some lane => lane.issued.contains token
  | none => false

/-- The position in the build of the phase at `index` of the running stage. -/
def runningPosition? (f : Flow) (index : Nat) : Option Nat :=
  (f.stages.head?.bind (·.position? index)).filter (· < f.build.phases.length)

/-- Takes over the container of a phase of the running stage. The update may come after the
completion, so any token that was issued for the phase in this stage will do. -/
def updatePhase (f : Flow) (e : Event) : Flow × List Effect :=
  match e.phase with
  | none => (f, [])
  | some patch =>
    if e.isSuccess ∧ patch.hasContainer ∧ f.leg? = some .run ∧ f.issuedFor patch.index e.token then
      match f.runningPosition? patch.index with
      | some position =>
        let g := f.modifyPhase position (·.applyContainer patch)
        (g, [g.snapshot])
      | none => (f, [])
    else (f, [])

/-- Takes an event. One that the flow does not accept changes nothing. -/
def process (f : Flow) (e : Event) (now : Moment) : Flow × List Effect :=
  if f.ended then (f, [])
  else if e.kind = .phaseUpdate then f.updatePhase e
  else if f.accepts e then f.drive (some e) now
  else (f, [])

end Flow
end BuildPipeline
