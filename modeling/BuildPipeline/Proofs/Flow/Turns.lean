import BuildPipeline.Proofs.Flow.Standing

/-!
What a turn can be. A turn without an event is one of `Bare`, a turn that takes an event is one of
`Fed`, and `Passes.bare` and `Rests.fed` say that these are all. Whatever is to be known about
turns is read off the two; the first such things are where a turn leads (`Bare.leads`,
`Fed.leads`), where a call leads (`Rests.drive`), and that every flow of a course rests
(`Course.Of.rests`).
-/

namespace BuildPipeline

open Time (Moment)

namespace Flow

section Parts

variable {f : Flow} {leg : Leg} {now : Moment}

theorem turn_of_aborted {e : Option Event} (aborted : f.aborted = true) (ne : leg ≠ .tearDown) :
    f.turn leg e now = .again f.leaveLeg [] := by
  unfold turn
  rw [if_pos ⟨aborted, ne⟩]

theorem turn_of_live {e : Option Event} (live : f.aborted = false) :
    f.turn leg e now = match leg with
      | .setup => f.setupTurn now e
      | .run => f.runTurn e
      | .tearDown => f.tearDownTurn now e := by
  unfold turn
  exact if_neg (by simp [live])

theorem turn_tearDown {e : Option Event} : f.turn .tearDown e now = f.tearDownTurn now e := by
  unfold turn
  rw [if_neg (by simp)]

/-- What the check of a stage comes to. -/
inductive Checked (f : Flow) (stage : Stage) : Turn → Prop
  | waits (incomplete : ¬stage.Holds f.build.phases (·.finalResult.isTerminal = true)) :
      Checked f stage (.wait f [])
  | passed (done : stage.Holds f.build.phases (·.finalResult = .done)) :
      Checked f stage (.again { f with stages := f.stages.tail } [.publish f.build])
  | cut (complete : stage.Holds f.build.phases (·.finalResult.isTerminal = true))
      (failed : ¬stage.Holds f.build.phases (·.finalResult = .done)) :
      Checked f stage
        (.again
          { f with
            build := canceledAt f.build (f.stages.tail.flatMap (·.members)), stages := [] }
          [.publish (canceledAt f.build (f.stages.tail.flatMap (·.members)))])

theorem checked (f : Flow) (stage : Stage) : Checked f stage (f.checkStage stage) := by
  by_cases complete : stage.Holds f.build.phases (·.finalResult.isTerminal = true)
  · by_cases done : stage.Holds f.build.phases (·.finalResult = .done)
    · rw [checkStage_of_successful done]
      exact .passed done
    · rw [checkStage_of_failed complete done]
      exact .cut complete done
  · rw [checkStage_of_incomplete complete]
    exact .waits complete

/-- What the next command of a step comes to. -/
inductive Stepped (f : Flow) (leg : Leg) : Turn → Prop
  | sent (a : Address) (next : f.chains.address? leg.capability f.dispatched = some a) :
      Stepped f leg (.wait f.commanded [.dispatch a (f.stepCommand leg)])
  | left (last : f.chains.address? leg.capability f.dispatched = none) :
      Stepped f leg (.again f.leaveLeg [])

theorem stepped (f : Flow) (leg : Leg) : Stepped f leg (f.commandStep leg) := by
  cases next : f.chains.address? leg.capability f.dispatched with
  | none =>
      rw [commandStep_of_none leg next]
      exact .left next
  | some a =>
      rw [commandStep_of_address leg next]
      exact .sent a next

/-- What going on with tear-down comes to. -/
inductive TornDown (f : Flow) (now : Moment) : Turn → Prop
  | sent (a : Address) (next : f.chains.address? .tearDown f.dispatched = some a) :
      TornDown f now (.wait f.commanded [.dispatch a (f.stepCommand .tearDown)])
  | complete (last : f.chains.count .tearDown ≤ f.dispatched) (live : f.aborted = false)
      (build : Build) (eq : build = f.build.markComplete now) :
      TornDown f now (.wait { f with build }.finish [.publish build, .finish build])
  | ended (last : f.chains.count .tearDown ≤ f.dispatched)
      (why : f.build.status = .failed ∨ f.aborted = true) :
      TornDown f now (.wait f.finish [.finish f.build])

theorem tornDown (f : Flow) (now : Moment) : TornDown f now (f.goOnTearDown now) := by
  unfold goOnTearDown
  split
  · rename_i more
    obtain ⟨a, next⟩ : ∃ a, f.chains.address? .tearDown f.dispatched = some a :=
      ⟨_, List.getElem?_eq_getElem more⟩
    rw [commandStep_of_address .tearDown next]
    exact .sent a next
  · rename_i last
    unfold conclude
    split
    · rename_i sound
      exact .complete (Nat.not_lt.1 last) (by simpa using sound.2) _ rfl
    · rename_i unsound
      refine .ended (Nat.not_lt.1 last) ?_
      simpa [Classical.or_iff_not_imp_left] using unsound

end Parts

/-! ## Turns without an event -/

/-- What a turn without an event comes to. -/
inductive Bare (plan : List Stage) (begun : Nat) (f : Flow) (now : Moment) : Leg → Turn → Prop
  | left (leg : Leg) (ne : leg ≠ .tearDown)
      (finished : leg = .run → f.aborted = true ∨ f.stages = [])
      (none_ : f.starting? leg none = none) :
      Bare plan begun f now leg (.again f.leaveLeg [])
  | opened (a : Address) (live : f.aborted = false)
      (next : f.chains.address? .setup f.dispatched = some a) :
      Bare plan begun f now .setup (.wait f.commanded [.dispatch a (f.stepCommand .setup)])
  | started (stage : Stage) (a : Address) (live : f.aborted = false)
      (on : OnRun plan begun begun f) (at_ : plan[begun]? = some stage)
      (starts : f.starting? .run none = some stage)
      (head : f.chains.address? .runPhase 0 = some a) :
      Bare plan begun f now .run
        (((f.startStage stage).1.checkStage stage).behind (f.startStage stage).2)
  | skipped (stage : Stage) (live : f.aborted = false)
      (on : OnRun plan begun begun f) (at_ : plan[begun]? = some stage)
      (starts : f.starting? .run none = some stage) (none_ : f.chains.count .runPhase = 0) :
      Bare plan begun f now .run
        (.again { (f.startStage stage).1 with stages := f.stages.tail }
          [.publish (f.startStage stage).1.build, .publish (f.startStage stage).1.build])
  | tornDown (t : Turn) (turn : TornDown f now t) : Bare plan begun f now .tearDown t

section Bare

variable {plan : List Stage} {begun : Nat} {f : Flow} {leg : Leg} {rest : List Leg}
  {now : Moment} {t : Turn}

theorem bare_setup : Bare plan begun f now .setup (f.turn .setup none now) := by
  have none_starts : f.starting? .setup none = none := by simp [starting?]
  cases aborted : f.aborted with
  | true =>
      rw [turn_of_aborted aborted (by decide)]
      exact .left _ (by decide) nofun none_starts
  | false =>
      rw [turn_of_live aborted]
      change Bare _ _ _ _ _ (f.commandStep .setup)
      have stepped := stepped f .setup
      generalize f.commandStep .setup = t at stepped
      cases stepped with
      | sent a next => exact .opened a aborted next
      | left => exact .left _ (by decide) nofun none_starts

/-- A flow on the run whose queue is empty leaves the run. -/
theorem bare_run_of_empty (queue : f.stages = []) :
    Bare plan begun f now .run (f.turn .run none now) := by
  have none_starts : f.starting? .run none = none := by simp [starting?, queue]
  cases aborted : f.aborted with
  | true =>
      rw [turn_of_aborted aborted (by decide)]
      exact .left _ (by decide) (fun _ => .inl aborted) none_starts
  | false =>
      rw [turn_of_live aborted]
      simp only [runTurn, queue]
      exact .left _ (by decide) (fun _ => .inr queue) none_starts

/-- Without providers a stage is done as soon as it is started. -/
theorem OnRun.runTurn_of_no_provider {stage : Stage} (on : OnRun plan begun begun f)
    (live : f.aborted = false) (at_ : plan[begun]? = some stage)
    (none_ : f.chains.count .runPhase = 0) :
    f.runTurn none =
      .again { (f.startStage stage).1 with stages := f.stages.tail }
        [.publish (f.startStage stage).1.build, .publish (f.startStage stage).1.build] := by
  have queue := on.stages_eq at_
  have skips := on.skips live at_ none_
  simp only [runTurn, queue]
  rw [checkStage_of_successful (skips.done.mono fun _ h => h.1), skips.effects,
    stages_startStage, queue]
  rfl

theorem OnRun.bare (on : OnRun plan begun begun f) :
    Bare plan begun f now .run (f.turn .run none now) := by
  cases at_ : plan[begun]? with
  | none =>
      apply bare_run_of_empty
      rw [on.queue, List.drop_eq_nil_iff]
      exact List.getElem?_eq_none_iff.1 at_
  | some stage =>
      have queue := on.stages_eq at_
      cases aborted : f.aborted with
      | true =>
          rw [turn_of_aborted aborted (by decide)]
          exact .left _ (by decide) (fun _ => .inl aborted) (by simp [starting?, aborted])
      | false =>
          have starts : f.starting? .run none = some stage := by
            simp [starting?, aborted, queue]
          rw [turn_of_live aborted]
          cases head : f.chains.address? .runPhase 0 with
          | some a =>
              simp only [runTurn, queue]
              exact .started stage a aborted on at_ starts head
          | none =>
              have none_ : f.chains.count .runPhase = 0 :=
                Nat.le_zero.1 (List.getElem?_eq_none_iff.1 head)
              have whole := on.runTurn_of_no_provider aborted at_ none_
              change Bare _ _ _ _ _ (f.runTurn none)
              rw [whole]
              exact .skipped stage aborted on at_ starts none_

theorem Passes.bare (passes : Passes plan begun f) (legs : f.legs = leg :: rest) :
    Bare plan begun f now leg (f.turn leg none now) := by
  cases passes with
  | setup on =>
      cases on.legs.symm.trans legs
      exact bare_setup
  | run on =>
      cases on.legs.symm.trans legs
      exact on.bare
  | cut legs' going queue =>
      cases legs'.symm.trans legs
      exact bare_run_of_empty queue
  | tearDown legs' =>
      cases legs'.symm.trans legs
      rw [turn_tearDown]
      exact .tornDown _ (Flow.tornDown f now)

theorem OnRun.offRun_of_aborted {past next : Nat} (on : OnRun plan past next f)
    (aborted : f.aborted = true) : OffRun plan f := by
  refine ⟨on.laid, ?_, on.settles⟩
  intro n s _ position _ p at_
  exact on.settles aborted p (List.mem_of_getElem? at_)

theorem OffRun.leaveLeg (off : OffRun plan f) (legs : f.legs = [.run, .tearDown])
    (going : f.ended = false) : Passes plan begun f.leaveLeg := by
  refine .tearDown ?_ going (off.congr rfl rfl) rfl rfl rfl
  simp [Flow.leaveLeg, legs]

theorem OffRun.tornDown (off : OffRun plan f) (legs : f.legs = [.tearDown])
    (going : f.ended = false) (lanes : f.lanes = []) (turn : TornDown f now t) :
    Leads plan begun t := by
  cases turn with
  | sent a next =>
      refine .wait ?_ _
      exact .tearDown legs going (off.congr rfl rfl) lanes (Nat.succ_pos _)
        (List.getElem?_eq_some_iff.1 next).1 rfl
  | complete last live build eq =>
      subst eq
      refine .wait ?_ _
      exact .finished rfl rfl (off.congr rfl rfl) rfl rfl
  | ended last why =>
      refine .wait ?_ _
      exact .finished rfl rfl (off.congr rfl rfl) rfl rfl

/-- Where a turn without an event leads. -/
theorem Bare.leads (bare : Bare plan begun f now leg t) (passes : Passes plan begun f)
    (legs : f.legs = leg :: rest) :
    Leads plan (begun + (f.starting? leg none).toList.length) t := by
  cases bare with
  | left _ ne finished none_ =>
      rw [none_]
      refine .again ?_ _
      cases passes with
      | setup on begun_none _ _ =>
          subst begun_none
          exact .run on.leaveLeg
      | run on =>
          cases on.legs.symm.trans legs
          rcases finished rfl with aborted | empty
          · exact (on.offRun_of_aborted aborted).leaveLeg on.legs on.going
          · exact (on.offRun empty).leaveLeg on.legs on.going
      | cut legs' going _ off => exact off.leaveLeg legs' going
      | tearDown legs' => cases legs'.symm.trans legs; exact absurd rfl ne
  | opened a live next =>
      cases passes with
      | setup on none_ _ _ =>
          have none_starts : f.starting? .setup none = none := by simp [starting?]
          rw [none_starts]
          refine .wait (.setup ?_ none_ (Nat.succ_pos _) ?_ rfl) _
          · exact ⟨on.legs, on.going, on.lanes, on.queue, on.laid, on.fresh, on.settles⟩
          · exact (List.getElem?_eq_some_iff.1 next).1
      | run on => cases on.legs.symm.trans legs
      | cut legs' => cases legs'.symm.trans legs
      | tearDown legs' => cases legs'.symm.trans legs
  | started stage a live on at_ starts head =>
      rw [starts]
      rcases on.startStage live at_ head with ⟨fan, onStage, inside⟩
      have live' : (f.startStage stage).1.aborted = false :=
        (congrArg Flow.aborted fan.frame).trans live
      exact (onStage.checkStage live' at_ inside).behind _
  | skipped stage live on at_ starts none_ =>
      rw [starts]
      have skips := on.skips live at_ none_
      have popped := skips.onRun.pop at_ (skips.done.mono fun p h => ⟨h.1, fun _ => h.2 rfl⟩)
      rw [stages_startStage] at popped
      exact .again (.run popped) _
  | tornDown _ turn =>
      have none_starts : f.starting? .tearDown none = none := by simp [starting?]
      rw [none_starts]
      cases passes with
      | tearDown legs' going off count lanes step => exact off.tornDown legs' going lanes turn
      | setup on => cases on.legs.symm.trans legs
      | run on => cases on.legs.symm.trans legs
      | cut legs' => cases legs'.symm.trans legs

end Bare

/-! ## Turns that take an event -/

section Fed

variable {plan : List Stage} {begun : Nat} {f : Flow} {leg : Leg} {rest : List Leg}
  {now : Moment} {e : Event} {t : Turn}

/-- What an event that the flow accepts says on its leg. -/
theorem accepts_inv {e : Event} (accepted : f.accepts e = true) :
    f.ended = false ∧
      (f.leg? = some .setup ∧ e.kind = .setupEnd ∧ f.pendingStep = some e.token ∨
        f.leg? = some .tearDown ∧ e.kind = .tearDownEnd ∧ f.pendingStep = some e.token ∨
        f.leg? = some .run ∧ e.kind = .phaseEnd ∧
          ∃ patch lane, e.phase = some patch ∧ f.lanes[patch.index]? = some lane ∧
            lane.awaited = some e.token) := by
  unfold accepts at accepted
  split at accepted
  · cases accepted
  · rename_i going
    refine ⟨by simpa using going, ?_⟩
    split at accepted
    · rename_i leg kind
      exact .inl ⟨leg, kind, by simpa using accepted⟩
    · rename_i leg kind
      exact .inr (.inl ⟨leg, kind, by simpa using accepted⟩)
    · rename_i leg kind
      split at accepted
      · rename_i patch phase
        rw [beq_iff_eq, awaited?, Option.bind_eq_some_iff] at accepted
        obtain ⟨lane, on, awaited⟩ := accepted
        exact .inr (.inr ⟨leg, kind, patch, lane, phase, on, awaited⟩)
      · cases accepted
    · cases accepted

/-- The flow behind the failure of a phase. -/
def behindFailure (f : Flow) (e : Event) (patch : PhasePatch) (position : Nat) : Flow :=
  f.replied e patch.index position failedRun clearedLane f.minted

/-- The flow behind the success of the last provider of a phase. -/
def behindLast (f : Flow) (e : Event) (patch : PhasePatch) (position : Nat) : Flow :=
  f.replied e patch.index position (settledRun patch) clearedLane f.minted

/-- The flow behind the success of any other provider of a phase, with the next one commanded. -/
def behindNext (f : Flow) (e : Event) (patch : PhasePatch) (position : Nat) : Flow :=
  f.replied e patch.index position (nextRun patch) (Lane.command · f.nextToken) (f.minted + 1)

/-- The turns that take a reply to a phase, by what the reply comes to. -/
inductive PhaseTurn (f : Flow) (stage : Stage) (e : Event) (patch : PhasePatch) (position : Nat)
    (p : Phase) (lane : Lane) : Turn → Prop where
  | failed (fails : e.isSuccess = false)
      (keeps : Keeps (f.chains.count .runPhase) failedRun clearedLane lane) :
      PhaseTurn f stage e patch position p lane
        (((f.behindFailure e patch position).checkStage stage).behind
          [(f.behindFailure e patch position).snapshot])
  | last (success : e.isSuccess = true) (sent : lane.sent = f.chains.count .runPhase)
      (keeps : Keeps (f.chains.count .runPhase) (settledRun patch) clearedLane lane) :
      PhaseTurn f stage e patch position p lane
        ((f.behindLast e patch position).checkStage stage)
  | next (a : Address) (success : e.isSuccess = true)
      (next : f.chains.address? .runPhase lane.sent = some a)
      (keeps :
        Keeps (f.chains.count .runPhase) (nextRun patch) (Lane.command · f.nextToken) lane) :
      PhaseTurn f stage e patch position p lane
        (.wait (f.behindNext e patch position)
          [.dispatch a (.runPhase f.nextToken (f.behindNext e patch position).build
            (nextRun patch p))])

/-- The flow once the phase `p` at `position`, with its lane, has taken in a reply, and the commands
that go out for the phase. -/
inductive Settled (f : Flow) (e : Event) (patch : PhasePatch) (position : Nat) (p : Phase)
    (lane : Lane) : Flow → List (Address × Command) → Prop
  | failed (fails : e.isSuccess = false) :
      Settled f e patch position p lane (f.behindFailure e patch position) []
  | last (success : e.isSuccess = true) (sent : lane.sent = f.chains.count .runPhase) :
      Settled f e patch position p lane (f.behindLast e patch position) []
  | next (a : Address) (success : e.isSuccess = true)
      (next : f.chains.address? .runPhase lane.sent = some a) :
      Settled f e patch position p lane (f.behindNext e patch position)
        [(a, .runPhase f.nextToken (f.behindNext e patch position).build (nextRun patch p))]

section Settled

variable {h : Flow} {stage : Stage} {patch : PhasePatch} {position past : Nat} {p : Phase}
  {lane : Lane} {sent : List (Address × Command)}

theorem Settled.keeps (settled : Settled f e patch position p lane h sent)
    (awaited : lane.awaited = some e.token) : ∃ phase change minted,
      h = f.replied e patch.index position phase change minted ∧
        Keeps (f.chains.count .runPhase) phase change lane := by
  cases settled with
  | failed fails => exact ⟨_, _, _, rfl, keeps_failedRun awaited⟩
  | last success sent =>
      exact ⟨_, _, _, rfl, keeps_settledRun patch awaited (Nat.le_of_eq sent.symm)⟩
  | next a success next =>
      exact ⟨_, _, _, rfl,
        keeps_nextRun patch f.nextToken awaited (List.getElem?_eq_some_iff.1 next).1⟩

/-- A phase settles within its stage. -/
theorem Settled.onStage (settled : Settled f e patch position p lane h sent)
    (awaited : lane.awaited = some e.token) (on : OnRun plan past (past + 1) f)
    (live : f.aborted = false) (at_ : plan[past]? = some stage) (inside : InStage f stage)
    (lane_at : f.lanes[patch.index]? = some lane)
    (place : stage.members[patch.index]? = some position) :
    OnRun plan past (past + 1) h ∧ InStage h stage := by
  rcases settled.keeps awaited with ⟨phase, change, minted, rfl, keeps⟩
  exact on.replied live at_ inside lane_at place keeps

/-- What a reply leaves alone. -/
theorem Settled.frame (settled : Settled f e patch position p lane h sent) :
    h.legs = f.legs ∧ h.stages = f.stages ∧ h.chains = f.chains ∧ h.aborted = f.aborted ∧
      h.ended = f.ended ∧ (∀ other ≠ position, h.build.phases[other]? = f.build.phases[other]?) ∧
      ∀ i ≠ patch.index, h.lanes[i]? = f.lanes[i]? := by
  have others : ∀ phase : Phase → Phase, ∀ other ≠ position,
      (f.build.phases.modify position phase)[other]? = f.build.phases[other]? :=
    fun phase other ne => List.getElem?_modify_ne _ _ ne.symm
  have lanes : ∀ change : Lane → Lane, ∀ i ≠ patch.index,
      (f.lanes.modify patch.index change)[i]? = f.lanes[i]? :=
    fun change i ne => List.getElem?_modify_ne _ _ ne.symm
  cases settled with
  | failed => exact ⟨rfl, rfl, rfl, rfl, rfl, others _, lanes _⟩
  | last => exact ⟨rfl, rfl, rfl, rfl, rfl, others _, lanes _⟩
  | next => exact ⟨rfl, rfl, rfl, rfl, rfl, others _, lanes _⟩

/-- Behind what a reply says, a turn looks at the stage, or waits for the next provider. -/
theorem PhaseTurn.settled (turn : PhaseTurn f stage e patch position p lane t) :
    (∃ h told, Settled f e patch position p lane h [] ∧ sends told = [] ∧
      BuildPipeline.ends told = [] ∧ t = (h.checkStage stage).behind told) ∨
    ∃ h a c, Settled f e patch position p lane h [(a, c)] ∧ h.lanes =
      f.lanes.modify patch.index (Lane.command · f.nextToken) ∧ t = .wait h [.dispatch a c] := by
  cases turn with
  | failed fails =>
      exact .inl ⟨_, [(f.behindFailure e patch position).snapshot], .failed fails, rfl, rfl, rfl⟩
  | last success sent => exact .inl ⟨_, [], .last success sent, rfl, rfl, rfl⟩
  | next a success next => exact .inr ⟨_, a, _, .next a success next, rfl, rfl⟩

/-- A turn that takes a reply and waits: the phase has settled, and nothing else has happened. -/
theorem PhaseTurn.of_waits (turn : PhaseTurn f stage e patch position p lane t)
    (waits : t.goesOn = false) :
    Settled f e patch position p lane t.flow (sends t.effects) ∧
      BuildPipeline.ends t.effects = [] := by
  rcases turn.settled with ⟨h, told, settled, silent, endless, rfl⟩ | ⟨h, a, c, settled, -, rfl⟩
  · have checked := checked h stage
    simp only [Turn.behind, sends_append, ends_append, silent, endless] at waits ⊢
    generalize h.checkStage stage = t at waits checked
    cases checked with
    | waits => exact ⟨settled, rfl⟩
    | passed => cases waits
    | cut => cases waits
  · exact ⟨settled, rfl⟩

/-- A turn that takes a reply and goes on sends nothing and stays on its leg. -/
theorem PhaseTurn.of_goesOn (turn : PhaseTurn f stage e patch position p lane t)
    (goesOn : t.goesOn = true) :
    sends t.effects = [] ∧ BuildPipeline.ends t.effects = [] ∧ t.flow.minted = f.minted ∧
      t.flow.legs = f.legs := by
  rcases turn.settled with ⟨h, told, settled, silent, endless, rfl⟩ | ⟨h, a, c, -, -, rfl⟩
  · have minted : h.minted = f.minted := by cases settled <;> rfl
    have legs := settled.frame.1
    have checked := checked h stage
    simp only [Turn.behind, sends_append, ends_append, silent, endless] at goesOn ⊢
    generalize h.checkStage stage = t at goesOn checked
    cases checked with
    | waits => cases goesOn
    | passed => exact ⟨rfl, rfl, minted, legs⟩
    | cut => exact ⟨rfl, rfl, minted, legs⟩
  · cases goesOn

end Settled

theorem InStage.phaseTurn {past : Nat} {stage : Stage} {e : Event} {patch : PhasePatch}
    {lane : Lane} (inside : InStage f stage) (on : OnRun plan past (past + 1) f)
    (at_ : plan[past]? = some stage) (phase : e.phase = some patch)
    (lane_at : f.lanes[patch.index]? = some lane) (waits : lane.awaited = some e.token) :
    ∃ position p, stage.members[patch.index]? = some position ∧
      f.build.phases[position]? = some p ∧ lane.Fits (f.chains.count .runPhase) p ∧
      PhaseTurn f stage e patch position p lane (f.runTurn (some e)) := by
  have lt : patch.index < stage.members.length := by
    rw [← inside.width]
    exact (List.getElem?_eq_some_iff.1 lane_at).1
  obtain ⟨position, place⟩ : ∃ position, stage.position? patch.index = some position :=
    ⟨_, List.getElem?_eq_getElem lt⟩
  have within := on.laid.lt_of_mem at_ (List.mem_of_getElem? place)
  have queue := on.stages_eq at_
  obtain ⟨p, at_p⟩ : ∃ p, f.build.phases[position]? = some p :=
    ⟨_, List.getElem?_eq_getElem within⟩
  have fits := (inside.fits patch.index lane position p lane_at place at_p).1
  refine ⟨position, p, place, at_p, fits, ?_⟩
  cases success : e.isSuccess with
  | false =>
      rw [runTurn_of_failure queue phase place within success]
      exact .failed success (keeps_failedRun waits)
  | true =>
      rcases Nat.lt_or_ge lane.sent (f.chains.count .runPhase) with more | last
      · obtain ⟨a, next⟩ : ∃ a, f.chains.address? .runPhase lane.sent = some a :=
          ⟨_, List.getElem?_eq_getElem more⟩
        rw [runTurn_of_next queue phase place at_p success lane_at next]
        exact .next a success next (keeps_nextRun patch f.nextToken waits more)
      · rw [runTurn_of_last queue phase place within success (sent_of_lane lane_at ▸ last)]
        exact .last success (Nat.le_antisymm fits.sent_le last)
          (keeps_settledRun patch waits last)

/-- A lane that waits keeps its stage open. -/
theorem InStage.not_complete {past i : Nat} {stage : Stage} {lane : Lane} {token : Token}
    (inside : InStage f stage) (on : OnRun plan past (past + 1) f)
    (at_ : plan[past]? = some stage) (lane_at : f.lanes[i]? = some lane)
    (waits : lane.awaited = some token) :
    ¬stage.Holds f.build.phases (·.finalResult.isTerminal = true) := by
  intro complete
  have quiet := (inside.complete_iff fun position mem => on.laid.lt_of_mem at_ mem).1 complete
  rw [quiet lane (List.mem_of_getElem? lane_at)] at waits
  cases waits

/-- What a turn comes to that takes an event which the flow accepts. -/
inductive Fed (f : Flow) (e : Event) (now : Moment) : Leg → Turn → Prop
  | dropped (leg : Leg) (ne : leg ≠ .tearDown) (aborted : f.aborted = true) :
      Fed f e now leg (.again f.leaveLeg [])
  | adopted (live : f.aborted = false) (success : e.isSuccess = true) (t : Turn)
      (turn : Stepped (f.clearStep.adopt e) .setup t) :
      Fed f e now .setup (t.behind [(f.clearStep.adopt e).snapshot])
  | refused (live : f.aborted = false) (fails : e.isSuccess = false) :
      Fed f e now .setup
        (.again
          { f.clearStep.failBuild e now with
            legs := (f.clearStep.failBuild e now).legs.tail }.leaveLeg
          [(f.clearStep.failBuild e now).snapshot])
  | phase (stage : Stage) (rest : List Stage) (patch : PhasePatch) (lane : Lane) (position : Nat)
      (p : Phase) (live : f.aborted = false) (queue : f.stages = stage :: rest)
      (phase : e.phase = some patch) (lane_at : f.lanes[patch.index]? = some lane)
      (awaited : lane.awaited = some e.token) (place : stage.members[patch.index]? = some position)
      (at_ : f.build.phases[position]? = some p)
      (fits : lane.Fits (f.chains.count .runPhase) p) (t : Turn)
      (turn : PhaseTurn f stage e patch position p lane t) :
      Fed f e now .run t
  | pressedOn (aborted : f.aborted = true) (t : Turn) (turn : TornDown f.clearStep now t) :
      Fed f e now .tearDown t
  | cleaned (live : f.aborted = false) (success : e.isSuccess = true) (plain : e.stages = none)
      (t : Turn) (turn : TornDown (f.clearStep.adopt e) now t) :
      Fed f e now .tearDown (t.behind [(f.clearStep.adopt e).snapshot])
  | failed (live : f.aborted = false) (fails : e.isSuccess = false) :
      Fed f e now .tearDown
        (.wait (f.clearStep.failBuild e now).finish
          [(f.clearStep.failBuild e now).snapshot,
            .finish (f.clearStep.failBuild e now).build])

theorem Rests.fed (rests : Rests plan begun f) (legs : f.legs = leg :: rest)
    (accepted : f.accepts e = true) (proper : e.Proper) :
    Fed f e now leg (f.turn leg (some e) now) := by
  rcases accepts_inv accepted with ⟨-, ways⟩
  cases rests with
  | setup on none_ sent within waits =>
      cases on.legs.symm.trans legs
      cases aborted : f.aborted with
      | true =>
          rw [turn_of_aborted aborted (by decide)]
          exact .dropped _ (by decide) aborted
      | false =>
          rw [turn_of_live aborted]
          have live : f.clearStep.aborted = false := aborted
          simp only [setupTurn, takeStep, live]
          cases success : e.isSuccess with
          | true => exact .adopted aborted success _ (stepped _ _)
          | false => exact .refused aborted success
  | run past stage on at_ last inside waits =>
      cases on.legs.symm.trans legs
      cases aborted : f.aborted with
      | true =>
          rw [turn_of_aborted aborted (by decide)]
          exact .dropped _ (by decide) aborted
      | false =>
          rw [turn_of_live aborted]
          obtain ⟨patch, lane, phase, lane_at, awaited⟩ :
              ∃ patch lane, e.phase = some patch ∧ f.lanes[patch.index]? = some lane ∧
                lane.awaited = some e.token := by
            rcases ways with ⟨leg, -⟩ | ⟨leg, -⟩ | ⟨-, -, found⟩
            · simp [leg?, on.legs] at leg
            · simp [leg?, on.legs] at leg
            · exact found
          obtain ⟨position, p, place, at_p, fits, turn⟩ :=
            inside.phaseTurn on at_ phase lane_at awaited
          exact .phase stage _ patch lane position p aborted (on.stages_eq at_) phase lane_at
            awaited place at_p fits _ turn
  | tearDown legs' going off lanes sent within waits =>
      cases legs'.symm.trans legs
      rw [turn_tearDown]
      simp only [tearDownTurn, takeStep]
      cases aborted : f.aborted with
      | true =>
          rw [if_pos (show f.clearStep.aborted = true from aborted)]
          exact .pressedOn aborted _ (tornDown _ now)
      | false =>
          rw [if_neg (by simp [clearStep, aborted])]
          cases success : e.isSuccess with
          | true =>
              have kind : e.kind ≠ .setupEnd := by
                rcases ways with ⟨leg, -⟩ | ⟨-, kind, -⟩ | ⟨leg, -⟩
                · simp [leg?, legs'] at leg
                · simp [kind]
                · simp [leg?, legs'] at leg
              have plain : e.stages = none := Classical.byContradiction fun some_ =>
                kind (proper some_)
              exact .cleaned aborted success plain _ (tornDown _ now)
          | false => exact .failed aborted success
  | finished legs' => simp [legs'] at legs

/-- A step without stages leaves the phases of the build as they are. -/
theorem adopt_of_plain (f : Flow) (plain : e.stages = none) :
    f.adopt e =
      { f with
        build := { f.build with
          workspace := e.workspace.getD f.build.workspace
          repository := e.repository.getD f.build.repository } } := by
  simp only [adopt, plain, loadStages?]

/-- Where a turn leads that takes an event. The stages that a successful step of set-up brings
become the plan. -/
theorem Fed.leads (fed : Fed f e now leg t) (rests : Rests plan begun f)
    (legs : f.legs = leg :: rest) (accepted : f.accepts e = true) :
    Leads (planned plan (f.loading? (.process e now))) begun t := by
  cases rests with
  | setup on none_ sent within waits =>
      cases on.legs.symm.trans legs
      subst none_
      have on' : OnSetup plan f.clearStep :=
        ⟨on.legs, on.going, on.lanes, on.queue, on.laid, on.fresh, on.settles⟩
      cases fed with
      | dropped _ ne aborted =>
          rw [loading?, if_neg (by simp [aborted])]
          exact .again (.run on.leaveLeg) _
      | adopted live success t turn =>
          rw [loading?, if_pos ⟨by simp [leg?, on.legs], live, accepted, success⟩]
          refine Leads.behind ?_ _
          have adopted := on'.adopt live e
          cases turn with
          | sent a next =>
              refine .wait (.setup ?_ rfl (Nat.succ_pos _) ?_ rfl) _
              · exact ⟨adopted.legs, adopted.going, adopted.lanes, adopted.queue, adopted.laid,
                  adopted.fresh, adopted.settles⟩
              · exact (List.getElem?_eq_some_iff.1 next).1
          | left last => exact .again (.run adopted.leaveLeg) _
      | refused live fails =>
          rw [loading?, if_neg (by simp [fails])]
          refine .again ?_ _
          refine .tearDown ?_ on.going ?_ rfl rfl rfl
          · simp [Flow.leaveLeg, failBuild, clearStep, on.legs]
          · exact (offRun_failBuild (f := f.clearStep) e now on.laid).congr rfl rfl
  | run past stage on at_ last inside waits =>
      cases on.legs.symm.trans legs
      subst last
      rw [loading?, if_neg (by simp [leg?, on.legs])]
      cases fed with
      | dropped _ ne aborted =>
          exact .again ((on.offRun_of_aborted aborted).leaveLeg on.legs on.going) _
      | phase stage' _ patch lane position p live queue phase lane_at awaited place at_p fits _
          turn =>
          obtain rfl : stage = stage' := by
            rw [on.stages_eq at_] at queue
            exact (List.cons.inj queue).1
          rcases turn.settled with ⟨h, told, settled, -, -, rfl⟩ | ⟨h, a, c, settled, lanes, rfl⟩
          · rcases settled.onStage awaited on live at_ inside lane_at place with ⟨onStage, inside⟩
            rcases settled.frame with ⟨-, -, -, aborted, -⟩
            exact (onStage.checkStage (aborted.trans live) at_ inside).behind _
          · rcases settled.onStage awaited on live at_ inside lane_at place with ⟨onStage, inside⟩
            refine .wait (.run past stage onStage at_ rfl inside ?_) _
            have commanded : h.lanes[patch.index]? = some (Lane.command lane f.nextToken) := by
              simp [lanes, lane_at]
            exact inside.not_complete onStage at_ commanded rfl
  | tearDown legs' going off lanes sent within waits =>
      cases legs'.symm.trans legs
      rw [loading?, if_neg (by simp [leg?, legs'])]
      have off' : OffRun plan f.clearStep := off.congr rfl rfl
      cases fed with
      | dropped _ ne => exact absurd rfl ne
      | pressedOn aborted t turn => exact off'.tornDown legs' going lanes turn
      | cleaned live success plain t turn =>
          refine Leads.behind ?_ _
          rw [adopt_of_plain _ plain] at turn
          refine OffRun.tornDown ?_ ?_ ?_ ?_ turn
          · exact off'.congr rfl rfl
          · exact legs'
          · exact going
          · exact lanes
      | failed live fails =>
          refine .wait ?_ _
          have finished := offRun_failBuild (f := f.clearStep) e now off'.laid
          exact .finished rfl rfl (finished.congr rfl rfl) rfl rfl
  | finished legs' => simp [legs'] at legs

end Fed

end Flow
end BuildPipeline
