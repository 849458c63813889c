import BuildPipeline.Proofs.Flow.Schedule

/-!
Where tokens are waited on. A flow waits on tokens in slots: one for the current step of set-up or
tear-down, and one for every phase of the running stage (`Flow.slot?`). `Fills` tells how the slots
are filled from one flow to another: by the commands that go out meanwhile, which take the tokens
that come next, one after the other; what is not filled so was filled before. It holds of every part
of a turn, whatever the state of the flow and whatever the event, and so of every call
(`fills_call`); an event that is accepted empties its slot first (`fills_of_accepted`).
-/

namespace BuildPipeline

open Time (Moment)

/-- The commands that some effects send, in order. -/
def commands (effects : List Effect) : List Command :=
  (sends effects).map (·.2)

@[simp]
theorem commands_append (one two : List Effect) :
    commands (one ++ two) = commands one ++ commands two := by
  simp [commands]

@[simp]
theorem commands_nil : commands [] = [] :=
  rfl

@[simp]
theorem commands_dispatch (a : Address) (c : Command) (effects : List Effect) :
    commands (.dispatch a c :: effects) = c :: commands effects :=
  rfl

/-- The slot in which the reply to a command is waited on. -/
def Command.slot (c : Command) : Option Nat :=
  c.phase.map (·.index)

namespace Flow

/-- The token that is waited on in a slot: for the current step, or for the phase at an index of the
running stage. -/
def slot? (f : Flow) : Option Nat → Option Token
  | none => f.pendingStep
  | some index => f.awaited? index

/-- How the slots are filled while a flow `f` becomes `g` with some effects. -/
structure Fills (f : Flow) (effects : List Effect) (g : Flow) : Prop where
  id : g.build.id = f.build.id
  tokens : (commands effects).map (·.token.number) =
    List.range' (f.minted + 1) (commands effects).length
  minted : g.minted = f.minted + (commands effects).length
  made : ∀ c ∈ commands effects,
    c.build.id = f.build.id ∧ (c.phase.isSome = true ↔ c.kind = .runPhase)
  going : g.legs ≠ [] → f.legs ≠ [] ∧ g.ended = f.ended
  slots : ∀ slot t, g.slot? slot = some t →
    f.slot? slot = some t ∧ g.leg? = f.leg? ∨
      ∃ c ∈ commands effects, c.slot = slot ∧ c.token = t ∧ g.leg? = some c.kind.leg

section Fills

variable {f g h : Flow} {one two effects : List Effect} {leg : Leg} {e : Event} {now : Moment}

theorem slot?_congr (step : g.pendingStep = f.pendingStep) (lanes : g.lanes = f.lanes) :
    g.slot? = f.slot? := by
  funext slot
  cases slot with
  | none => exact step
  | some index => simp only [slot?, awaited?, lanes]

theorem slot?_of_empty (step : f.pendingStep = none) (lanes : f.lanes = []) (slot : Option Nat) :
    f.slot? slot = none := by
  cases slot with
  | none => exact step
  | some index => simp [slot?, awaited?, lanes]

/-- What is waited on is waited on in a slot. -/
theorem mem_outstanding_iff_slot {t : Token} :
    t ∈ f.outstanding ↔ ∃ slot, f.slot? slot = some t := by
  rw [mem_outstanding]
  constructor
  · rintro (step | ⟨lane, mem, awaited⟩)
    · exact ⟨none, step⟩
    · rcases List.mem_iff_getElem?.1 mem with ⟨index, lane_at⟩
      exact ⟨some index, Option.bind_eq_some_iff.2 ⟨lane, lane_at, awaited⟩⟩
  · rintro ⟨slot, filled⟩
    cases slot with
    | none => exact .inl filled
    | some index =>
        rcases Option.bind_eq_some_iff.1 filled with ⟨lane, lane_at, awaited⟩
        exact .inr ⟨lane, List.mem_of_getElem? lane_at, awaited⟩

/-- Nothing goes out, and no slot is filled anew. -/
theorem Fills.quiet (silent : commands effects = []) (id : g.build.id = f.build.id)
    (minted : g.minted = f.minted) (going : g.legs ≠ [] → f.legs ≠ [] ∧ g.ended = f.ended)
    (slots : ∀ slot t, g.slot? slot = some t → f.slot? slot = some t ∧ g.leg? = f.leg?) :
    Fills f effects g := by
  refine ⟨id, ?_, ?_, ?_, going, fun slot t filled => .inl (slots slot t filled)⟩
  · rw [silent]
    rfl
  · rw [silent]
    exact minted
  · intro c mem
    rw [silent] at mem
    cases mem

/-- A flow that is told apart neither by its legs nor by what it waits on. -/
theorem Fills.same (silent : commands effects = []) (id : g.build.id = f.build.id)
    (minted : g.minted = f.minted) (legs : g.legs = f.legs) (ended : g.ended = f.ended)
    (step : g.pendingStep = f.pendingStep) (lanes : g.lanes = f.lanes) : Fills f effects g := by
  refine .quiet silent id minted (fun on => ⟨legs ▸ on, ended⟩) fun slot t filled => ?_
  rw [slot?_congr step lanes] at filled
  exact ⟨filled, congrArg List.head? legs⟩

/-- A flow that waits on nothing. -/
theorem Fills.empty (silent : commands effects = []) (id : g.build.id = f.build.id)
    (minted : g.minted = f.minted) (going : g.legs ≠ [] → f.legs ≠ [] ∧ g.ended = f.ended)
    (step : g.pendingStep = none) (lanes : g.lanes = []) : Fills f effects g := by
  refine .quiet silent id minted going fun slot t filled => ?_
  rw [slot?_of_empty step lanes] at filled
  cases filled

theorem Fills.refl (f : Flow) : Fills f [] f :=
  .same rfl rfl rfl rfl rfl rfl rfl

theorem Fills.trans (first : Fills f one g) (second : Fills g two h) :
    Fills f (one ++ two) h := by
  refine ⟨second.id.trans first.id, ?_, ?_, ?_, ?_, ?_⟩
  · rw [commands_append, List.map_append, first.tokens, second.tokens, first.minted,
      List.length_append, Nat.add_right_comm, List.range'_append_1]
  · rw [second.minted, first.minted, commands_append, List.length_append, Nat.add_assoc]
  · intro c mem
    rw [commands_append, List.mem_append] at mem
    rcases mem with mem | mem
    · exact first.made c mem
    · exact first.id ▸ second.made c mem
  · intro on
    rcases second.going on with ⟨on, ended⟩
    rcases first.going on with ⟨on, ended'⟩
    exact ⟨on, ended.trans ended'⟩
  · intro slot t filled
    rw [commands_append]
    rcases second.slots slot t filled with ⟨before, leg⟩ | ⟨c, mem, own⟩
    · rcases first.slots slot t before with ⟨start, leg'⟩ | ⟨c, mem, own, token, on⟩
      · exact .inl ⟨start, leg.trans leg'⟩
      · exact .inr ⟨c, List.mem_append_left _ mem, own, token, leg.trans on⟩
    · exact .inr ⟨c, List.mem_append_right _ mem, own⟩

/-! ## Parts of a turn -/

theorem fills_leaveLeg (f : Flow) : Fills f [] f.leaveLeg := by
  refine .empty rfl rfl rfl (fun on => ⟨fun none_ => on ?_, rfl⟩) rfl rfl
  rw [leaveLeg, none_, List.tail_nil]

theorem fills_finish (silent : commands effects = []) (id : g.build.id = f.build.id)
    (minted : g.minted = f.minted) : Fills f effects g.finish :=
  .empty silent id minted (fun on => absurd rfl on) rfl rfl

theorem fills_commandStep (on : f.leg? = some leg) (ne : leg ≠ .run) :
    Fills f (f.commandStep leg).effects (f.commandStep leg).flow := by
  have stepped := stepped f leg
  generalize f.commandStep leg = t at stepped
  cases stepped with
  | left => exact fills_leaveLeg f
  | sent a next =>
      have command : (f.stepCommand leg).token = f.nextToken ∧
          (f.stepCommand leg).kind.leg = leg ∧ (f.stepCommand leg).phase = none ∧
          (f.stepCommand leg).build = f.build := by
        cases leg with
        | run => exact absurd rfl ne
        | setup => exact ⟨rfl, rfl, rfl, rfl⟩
        | tearDown => exact ⟨rfl, rfl, rfl, rfl⟩
      rcases command with ⟨token, kind, phase, own⟩
      refine ⟨rfl, ?_, rfl, ?_, fun on => ⟨on, rfl⟩, ?_⟩
      · simp [Turn.wait, token, nextToken]
      · intro c mem
        obtain rfl := List.mem_singleton.1 mem
        rw [own, phase]
        refine ⟨rfl, fun named => absurd named Bool.false_ne_true, fun run => ?_⟩
        rw [run] at kind
        exact absurd kind.symm ne
      · intro slot t filled
        cases slot with
        | some index => exact .inl ⟨filled, rfl⟩
        | none =>
            refine .inr ⟨_, List.mem_singleton_self _, ?_, ?_, ?_⟩
            · rw [Command.slot, phase, Option.map_none]
            · exact token.trans (Option.some.inj filled)
            · rw [kind]
              exact on

theorem fills_commandPhase (on : f.leg? = some .run) {index position : Nat}
    (own : ∀ p, f.build.phases[position]? = some p → p.index = index) :
    Fills f (f.commandPhase index position).2 (f.commandPhase index position).1 := by
  unfold commandPhase
  split
  · rename_i a p head at_
    refine ⟨rfl, rfl, rfl, ?_, fun on => ⟨on, rfl⟩, ?_⟩
    · intro c mem
      obtain rfl := List.mem_singleton.1 mem
      exact ⟨rfl, fun _ => rfl, fun _ => rfl⟩
    · intro slot t filled
      by_cases here : slot = some index
      · subst here
        refine .inr ⟨_, List.mem_singleton_self _, congrArg some (own p at_), ?_, on⟩
        rcases Option.bind_eq_some_iff.1 filled with ⟨lane', lane_at, token⟩
        rw [List.getElem?_modify_eq, Option.map_eq_map, Option.map_eq_some_iff] at lane_at
        obtain ⟨lane, -, rfl⟩ := lane_at
        exact Option.some.inj token
      · refine .inl ⟨?_, rfl⟩
        cases slot with
        | none => exact filled
        | some i =>
            have ne : index ≠ i := fun same => here (congrArg some same.symm)
            simpa only [slot?, awaited?, List.getElem?_modify_ne _ _ ne] using filled
  · exact .refl f

theorem fills_modifyPhase (f : Flow) (position : Nat) (change : Phase → Phase) :
    Fills f [] (f.modifyPhase position change) :=
  .same rfl rfl rfl rfl rfl rfl rfl

/-- The command to the next provider of a phase that was just put on its way. -/
theorem fills_launch (on : f.leg? = some .run) (index position : Nat) :
    Fills f ((f.modifyPhase position (·.beginRun index)).commandPhase index position).2
      ((f.modifyPhase position (·.beginRun index)).commandPhase index position).1 := by
  refine (fills_modifyPhase f position (·.beginRun index)).trans
    (fills_commandPhase (f := f.modifyPhase position (·.beginRun index)) on ?_)
  intro p at_
  simp only [modifyPhase, List.getElem?_modify_eq, Option.map_eq_map] at at_
  rcases Option.map_eq_some_iff.1 at_ with ⟨q, -, rfl⟩
  rfl

theorem fills_startPhase (on : f.leg? = some .run) (index position : Nat) :
    Fills f (f.startPhase index position).2 (f.startPhase index position).1 := by
  unfold startPhase
  split
  · split
    · exact (fills_modifyPhase f position _).trans (fills_modifyPhase _ position _)
    · exact fills_launch on index position
  · exact .refl f

theorem fills_startPhases (on : f.leg? = some .run) (index : Nat) (positions : List Nat) :
    Fills f (f.startPhases index positions).2 (f.startPhases index positions).1 := by
  induction positions generalizing f index with
  | nil => exact .refl f
  | cons position positions ih =>
      have legs := legs_startPhase f index position
      exact (fills_startPhase on index position).trans
        (ih ((congrArg List.head? legs).trans on) (index + 1))

theorem fills_startStage (on : f.leg? = some .run) (stage : Stage) :
    Fills f (f.startStage stage).2 (f.startStage stage).1 := by
  have armed : Fills f [] (f.armed stage) := by
    refine .quiet rfl rfl rfl (fun on => ⟨on, rfl⟩) fun slot t filled => ?_
    cases slot with
    | none => exact ⟨filled, rfl⟩
    | some index =>
        simp only [slot?, awaited?, armed, List.getElem?_replicate] at filled
        split at filled <;> cases filled
  rw [startStage_eq]
  exact (armed.trans (fills_startPhases (f := f.armed stage) on 0 stage.members)).trans
    (.same rfl rfl rfl rfl rfl rfl rfl)

theorem fills_checkStage (f : Flow) (stage : Stage) :
    Fills f (f.checkStage stage).effects (f.checkStage stage).flow := by
  have checked := checked f stage
  generalize f.checkStage stage = t at checked
  cases checked with
  | waits => exact .refl f
  | passed => exact .same rfl rfl rfl rfl rfl rfl rfl
  | cut => exact .same rfl rfl rfl rfl rfl rfl rfl

theorem fills_phasePassed (on : f.leg? = some .run) (stage : Stage) (index position : Nat)
    (patch : PhasePatch) :
    Fills f (f.phasePassed stage index position patch).effects
      (f.phasePassed stage index position patch).flow := by
  have passed := fills_modifyPhase f position (passedRun patch)
  unfold phasePassed
  split
  · exact (passed.trans (fills_modifyPhase _ position _)).trans (fills_checkStage _ stage)
  · exact passed.trans (fills_launch (f := f.modifyPhase position (passedRun patch)) on index
      position)

theorem fills_phaseFailed (f : Flow) (stage : Stage) (position : Nat) (e : Event) :
    Fills f (f.phaseFailed stage position e).effects (f.phaseFailed stage position e).flow := by
  have failed : Fills f
      [({ f.modifyPhase position failedRun with
          build := { (f.modifyPhase position failedRun).build with
            statusMessage :=
              e.statusMessage <|> (f.modifyPhase position failedRun).build.statusMessage } } :
            Flow).snapshot]
      { f.modifyPhase position failedRun with
        build := { (f.modifyPhase position failedRun).build with
          statusMessage :=
            e.statusMessage <|> (f.modifyPhase position failedRun).build.statusMessage } } :=
    .same rfl rfl rfl rfl rfl rfl rfl
  exact failed.trans (fills_checkStage _ stage)

/-- A reply to a phase empties the slot of the phase first. -/
theorem fills_takePhase (on : f.leg? = some .run) (stage : Stage) {patch : PhasePatch}
    (phase : e.phase = some patch) :
    Fills (f.clearLane patch.index) (f.takePhase stage e).effects (f.takePhase stage e).flow := by
  simp only [takePhase, phase]
  split
  · exact .refl _
  · rename_i position _
    have adopted : Fills (f.clearLane patch.index) []
        ((f.clearLane patch.index).adoptChild e.childRepository) := by
      cases e.childRepository <;> exact .same rfl rfl rfl rfl rfl rfl rfl
    have on' : ((f.clearLane patch.index).adoptChild e.childRepository).leg? = some .run := by
      cases e.childRepository <;> exact on
    split
    · split
      · exact adopted.trans (fills_phasePassed on' stage patch.index position patch)
      · exact adopted.trans (fills_phaseFailed _ stage position e)
    · exact adopted

theorem fills_takeStep (f : Flow) (e : Event) (now : Moment) :
    Fills f (f.takeStep e now).2.1 (f.takeStep e now).1 := by
  unfold takeStep
  split
  · exact .refl f
  · split
    · unfold adopt loadStages?
      split <;> exact .same rfl rfl rfl rfl rfl rfl rfl
    · exact .same rfl rfl rfl rfl rfl rfl rfl

theorem fills_goOnTearDown (on : f.leg? = some .tearDown) (now : Moment) :
    Fills f (f.goOnTearDown now).effects (f.goOnTearDown now).flow := by
  unfold goOnTearDown conclude
  split
  · exact fills_commandStep on (by decide)
  · split
    · exact fills_finish rfl rfl rfl
    · exact fills_finish rfl rfl rfl

/-! ## Turns -/

theorem fills_turn (on : f.leg? = some leg) (now : Moment) :
    Fills f (f.turn leg none now).effects (f.turn leg none now).flow := by
  unfold turn
  split
  · exact fills_leaveLeg f
  · cases leg with
    | setup => exact fills_commandStep on (by decide)
    | tearDown => exact fills_goOnTearDown on now
    | run =>
        simp only [runTurn]
        split
        · exact fills_leaveLeg f
        · rename_i stage rest _ _
          exact (fills_startStage on stage).trans (fills_checkStage _ stage)
        · contradiction

theorem fills_drive (f : Flow) (now : Moment) :
    Fills f (f.drive none now).2 (f.drive none now).1 := by
  generalize quiet : (none : Option Event) = o
  fun_induction drive f o now with
  | case1 f => exact .refl f
  | case2 f o leg rest legs goesOn g effects driven ih =>
      subst quiet
      have rest := ih rfl
      rw [driven] at rest
      exact (fills_turn (leg?_of_legs legs) now).trans rest
  | case3 f o leg rest legs waits =>
      subst quiet
      exact fills_turn (leg?_of_legs legs) now

/-- The flow with nothing waited on in a slot. -/
def vacate (f : Flow) : Option Nat → Flow
  | none => f.clearStep
  | some index => f.clearLane index

/-- What is still waited on in an emptied flow was waited on before, in another slot. -/
theorem slot?_vacate {slot other : Option Nat} {t : Token}
    (filled : (f.vacate slot).slot? other = some t) : other ≠ slot ∧ f.slot? other = some t := by
  cases slot with
  | none =>
      cases other with
      | none => cases filled
      | some i => exact ⟨nofun, filled⟩
  | some index =>
      cases other with
      | none => exact ⟨nofun, filled⟩
      | some i =>
          rcases Option.bind_eq_some_iff.1 filled with ⟨lane', lane_at, awaited⟩
          change (f.lanes.modify index _)[i]? = some lane' at lane_at
          by_cases here : index = i
          · subst here
            rw [List.getElem?_modify_eq, Option.map_eq_map, Option.map_eq_some_iff] at lane_at
            obtain ⟨lane, -, rfl⟩ := lane_at
            cases awaited
          · rw [List.getElem?_modify_ne _ _ here] at lane_at
            exact ⟨fun same => here (Option.some.inj same).symm,
              Option.bind_eq_some_iff.2 ⟨lane', lane_at, awaited⟩⟩

theorem fills_vacate (f : Flow) (slot : Option Nat) : Fills f [] (f.vacate slot) := by
  refine .quiet rfl ?_ ?_ (fun on => ?_) fun _ _ filled => ⟨(slot?_vacate filled).2, ?_⟩
  · cases slot <;> rfl
  · cases slot <;> rfl
  · cases slot <;> exact ⟨on, rfl⟩
  · cases slot <;> rfl

/-- The turn that takes a step empties its slot first. -/
theorem fills_step (on : f.leg? = some leg) (ne : leg ≠ .run) (now : Moment) :
    Fills f.clearStep (f.turn leg (some e) now).effects (f.turn leg (some e) now).flow := by
  have taken := fills_takeStep f.clearStep e now
  have legs := legs_takeStep f.clearStep e now
  unfold turn
  split
  · exact fills_leaveLeg f.clearStep
  · cases leg with
    | run => exact absurd rfl ne
    | setup =>
        simp only [setupTurn]
        rcases step : f.clearStep.takeStep e now with ⟨g, effects, sound⟩
        rw [step] at taken legs
        have on' : g.leg? = some .setup := (congrArg List.head? legs).trans on
        cases sound with
        | true => exact taken.trans (fills_commandStep on' (by decide))
        | false =>
            have skipped : Fills g [] { g with legs := g.legs.tail }.leaveLeg := by
              refine .empty rfl rfl rfl (fun on => ⟨fun none_ => on ?_, rfl⟩) rfl rfl
              simp [leaveLeg, none_]
            have refused := taken.trans skipped
            rwa [List.append_nil] at refused
    | tearDown =>
        simp only [tearDownTurn]
        rcases step : f.clearStep.takeStep e now with ⟨g, effects, sound⟩
        rw [step] at taken legs
        have on' : g.leg? = some .tearDown := (congrArg List.head? legs).trans on
        cases sound with
        | true => exact taken.trans (fills_goOnTearDown on' now)
        | false => exact taken.trans (fills_finish rfl rfl rfl)

/-- The turn that takes the reply to a phase empties the slot of the phase first. -/
theorem fills_reply (on : f.leg? = some .run) {patch : PhasePatch} (phase : e.phase = some patch)
    (now : Moment) :
    Fills (f.clearLane patch.index) (f.turn .run (some e) now).effects
      (f.turn .run (some e) now).flow := by
  unfold turn
  split
  · exact fills_leaveLeg (f.clearLane patch.index)
  · simp only [runTurn]
    split
    · exact fills_leaveLeg (f.clearLane patch.index)
    · contradiction
    · rename_i stage rest e' queue given
      cases given
      exact fills_takePhase on stage phase

/-! ## Calls -/

/-- An event that is accepted has its token waited on in a slot, and empties the slot. -/
theorem fills_of_accepted (accepted : f.accepts e = true) (now : Moment) :
    ∃ slot, f.slot? slot = some e.token ∧
      Fills (f.vacate slot) (f.process e now).2 (f.process e now).1 := by
  have onwards : ∀ {slot leg}, f.leg? = some leg →
      Fills (f.vacate slot) (f.turn leg (some e) now).effects (f.turn leg (some e) now).flow →
      Fills (f.vacate slot) (f.process e now).2 (f.process e now).1 := by
    intro slot leg on turned
    obtain ⟨rest, legs⟩ := List.head?_eq_some_iff.1 on
    rw [process_of_accepted accepted, drive_of_legs now legs]
    split
    · exact turned.trans (fills_drive _ now)
    · exact turned
  rcases accepts_inv accepted with ⟨-, ⟨on, -, waits⟩ | ⟨on, -, waits⟩ | ⟨on, -, way⟩⟩
  · exact ⟨none, waits, onwards on (fills_step on (by decide) now)⟩
  · exact ⟨none, waits, onwards on (fills_step on (by decide) now)⟩
  · obtain ⟨patch, lane, phase, lane_at, awaited⟩ := way
    exact ⟨some patch.index, Option.bind_eq_some_iff.2 ⟨lane, lane_at, awaited⟩,
      onwards on (fills_reply on phase now)⟩

theorem fills_updatePhase (f : Flow) (e : Event) :
    Fills f (f.updatePhase e).2 (f.updatePhase e).1 := by
  unfold updatePhase
  split
  · exact .refl f
  · split
    · split
      · exact .same rfl rfl rfl rfl rfl rfl rfl
      · exact .refl f
    · exact .refl f

/-- An event that is rejected fills no slot. -/
theorem fills_of_rejected (rejected : f.accepts e = false) (now : Moment) :
    Fills f (f.process e now).2 (f.process e now).1 := by
  unfold process
  split
  · exact .refl f
  · split
    · exact fills_updatePhase f e
    · rw [rejected]
      exact .refl f

theorem fills_call (f : Flow) (call : Call) : Fills f (f.call call).2 (f.call call).1 := by
  cases call with
  | start now =>
      have inFlight : Fills f [] f.takeOff := .same rfl rfl rfl rfl rfl rfl rfl
      exact inFlight.trans (fills_drive f.takeOff now)
  | process e now =>
      cases accepted : f.accepts e with
      | true =>
          rcases fills_of_accepted accepted now with ⟨slot, -, filled⟩
          exact (fills_vacate f slot).trans filled
      | false => exact fills_of_rejected accepted now
  | abort now =>
      simp only [call, abort]
      split
      · exact .refl f
      · exact .same rfl rfl rfl rfl rfl rfl rfl

end Fills

end Flow
end BuildPipeline
