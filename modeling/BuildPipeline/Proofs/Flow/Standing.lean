import BuildPipeline.Proofs.Flow.Course
import BuildPipeline.Proofs.Flow.Replies

/-!
Where a flow can stand. Behind every call it waits on a leg or is over (`Rests`); between two turns
of a call it stands at the beginning of a leg or of a stage (`Passes`). Both say which stages of the
plan are finished, and how the results and the status of every phase go with that. What the
parts of a turn do to them is told here, one lemma for each part.
-/

namespace BuildPipeline

open Time (Moment)

/-- A phase that was loaded and not started. -/
def Phase.Fresh (aborted : Bool) (p : Phase) : Prop :=
  p.runResults = [] ∧ (aborted = false → p.status = .parked)

/-- A phase that every provider is done with. -/
def Phase.Done (aborted : Bool) (p : Phase) : Prop :=
  p.finalResult = .done ∧ (aborted = false → p.status = .done)

namespace Flow

/-- Every phase of an aborted flow is over. -/
def AbortSettles (f : Flow) : Prop :=
  f.aborted = true → ∀ p ∈ f.build.phases, p.status.isTerminal = true

/-- The flow is on set-up: nothing of the plan is started. -/
structure OnSetup (plan : List Stage) (f : Flow) : Prop where
  legs : f.legs = [.setup, .run, .tearDown]
  going : f.ended = false
  lanes : f.lanes = []
  queue : f.stages = plan
  laid : Laid plan f.build.phases
  fresh : ∀ (n : Nat) (s : Stage), plan[n]? = some s →
    s.Holds f.build.phases (Phase.Fresh f.aborted)
  settles : f.AbortSettles

/-- The flow is on the run: the stages before `past` are done, those from `next` on are fresh. -/
structure OnRun (plan : List Stage) (past next : Nat) (f : Flow) : Prop where
  legs : f.legs = [.run, .tearDown]
  going : f.ended = false
  step : f.pendingStep = none
  count : f.dispatched = 0
  queue : f.stages = plan.drop past
  laid : Laid plan f.build.phases
  done : ∀ (n : Nat) (s : Stage), plan[n]? = some s → n < past →
    s.Holds f.build.phases (Phase.Done f.aborted)
  fresh : ∀ (n : Nat) (s : Stage), plan[n]? = some s → next ≤ n →
    s.Holds f.build.phases (Phase.Fresh f.aborted)
  settles : f.AbortSettles

/-- The lanes of a stage and its phases go together. -/
structure InStage (f : Flow) (stage : Stage) : Prop where
  width : f.lanes.length = stage.members.length
  fits : ∀ (i : Nat) (lane : Lane) (position : Nat) (p : Phase), f.lanes[i]? = some lane →
    stage.members[i]? = some position → f.build.phases[position]? = some p →
    lane.Fits (f.chains.count .runPhase) p ∧ (f.aborted = false → p.status = p.finalResult)

/-- Every phase of the plan is over, and so is the run. -/
structure OffRun (plan : List Stage) (f : Flow) : Prop where
  laid : Laid plan f.build.phases
  finished : ∀ (n : Nat) (s : Stage), plan[n]? = some s →
    s.Holds f.build.phases (·.status.isTerminal = true)
  settles : f.AbortSettles

/-- Where a flow stands behind a call, when `begun` stages were started. -/
inductive Rests (plan : List Stage) (begun : Nat) (f : Flow) : Prop where
  | setup (on : OnSetup plan f) (none_ : begun = 0) (sent : 0 < f.dispatched)
      (within : f.dispatched ≤ f.chains.count .setup) (waits : f.pendingStep = some ⟨f.minted⟩)
  | run (past : Nat) (stage : Stage) (on : OnRun plan past (past + 1) f)
      (at_ : plan[past]? = some stage) (last : begun = past + 1) (inside : InStage f stage)
      (waits : ¬stage.Holds f.build.phases (·.finalResult.isTerminal = true))
  | tearDown (legs : f.legs = [.tearDown]) (going : f.ended = false) (off : OffRun plan f)
      (lanes : f.lanes = []) (sent : 0 < f.dispatched)
      (within : f.dispatched ≤ f.chains.count .tearDown) (waits : f.pendingStep = some ⟨f.minted⟩)
  | finished (legs : f.legs = []) (ended : f.ended = true) (off : OffRun plan f)
      (lanes : f.lanes = [])
      (step : f.pendingStep = none)

/-- Where a flow stands between two turns, when `begun` stages were started. -/
inductive Passes (plan : List Stage) (begun : Nat) (f : Flow) : Prop where
  | setup (on : OnSetup plan f) (none_ : begun = 0) (count : f.dispatched = 0)
      (step : f.pendingStep = none)
  | run (on : OnRun plan begun begun f)
  | cut (legs : f.legs = [.run, .tearDown]) (going : f.ended = false) (queue : f.stages = [])
      (off : OffRun plan f)
  | tearDown (legs : f.legs = [.tearDown]) (going : f.ended = false) (off : OffRun plan f)
      (count : f.dispatched = 0) (lanes : f.lanes = []) (step : f.pendingStep = none)

/-- What a turn leads to: it goes on from a standing between two turns, or rests. -/
def Leads (plan : List Stage) (begun : Nat) (t : Turn) : Prop :=
  (t.goesOn = true → Passes plan begun t.flow) ∧ (t.goesOn = false → Rests plan begun t.flow)

theorem Leads.behind {plan : List Stage} {begun : Nat} {t : Turn} (leads : Leads plan begun t)
    (effects : List Effect) : Leads plan begun (t.behind effects) :=
  leads

theorem Leads.again {plan : List Stage} {begun : Nat} {f : Flow} (passes : Passes plan begun f)
    (effects : List Effect) : Leads plan begun (.again f effects) :=
  ⟨fun _ => passes, nofun⟩

theorem Leads.wait {plan : List Stage} {begun : Nat} {f : Flow} (rests : Rests plan begun f)
    (effects : List Effect) : Leads plan begun (.wait f effects) :=
  ⟨nofun, fun _ => rests⟩

theorem leg?_of_legs {f : Flow} {leg : Leg} {rest : List Leg} (legs : f.legs = leg :: rest) :
    f.leg? = some leg := by
  simp [leg?, legs]

section Legs

variable {plan : List Stage} {begun : Nat} {f : Flow}

theorem Rests.on_setup (rests : Rests plan begun f) (on : f.leg? = some .setup) :
    OnSetup plan f ∧ begun = 0 := by
  cases rests with
  | setup on' none_ => exact ⟨on', none_⟩
  | run _ _ on' => rw [leg?_of_legs on'.legs] at on; cases on
  | tearDown legs => rw [leg?_of_legs legs] at on; cases on
  | finished legs => simp [leg?, legs] at on

theorem Rests.on_run (rests : Rests plan begun f) (on : f.leg? = some .run) :
    ∃ past stage, plan[past]? = some stage ∧ begun = past + 1 ∧
      OnRun plan past (past + 1) f ∧ InStage f stage ∧
      ¬stage.Holds f.build.phases (·.finalResult.isTerminal = true) := by
  cases rests with
  | setup on' => rw [leg?_of_legs on'.legs] at on; cases on
  | run past stage on' at_ last inside waits => exact ⟨past, stage, at_, last, on', inside, waits⟩
  | tearDown legs => rw [leg?_of_legs legs] at on; cases on
  | finished legs => simp [leg?, legs] at on

theorem Rests.on_tearDown (rests : Rests plan begun f) (on : f.leg? = some .tearDown) :
    f.legs = [.tearDown] ∧ f.ended = false ∧ OffRun plan f := by
  cases rests with
  | setup on' => rw [leg?_of_legs on'.legs] at on; cases on
  | run _ _ on' => rw [leg?_of_legs on'.legs] at on; cases on
  | tearDown legs going off => exact ⟨legs, going, off⟩
  | finished legs => simp [leg?, legs] at on

theorem Passes.dispatched_eq (passes : Passes plan begun f) (ne : f.leg? ≠ some .run) :
    f.dispatched = 0 := by
  cases passes with
  | setup _ _ count _ => exact count
  | run on => exact on.count
  | cut legs => exact absurd (leg?_of_legs legs) ne
  | tearDown _ _ _ count _ _ => exact count

end Legs

/-! ## The run -/

section Run

variable {plan : List Stage} {past : Nat} {f g : Flow} {stage : Stage}

theorem OnRun.stages_eq {next : Nat} (on : OnRun plan past next f)
    (at_ : plan[past]? = some stage) : f.stages = stage :: plan.drop (past + 1) := by
  rcases List.getElem?_eq_some_iff.1 at_ with ⟨lt, rfl⟩
  rw [on.queue, List.drop_eq_getElem_cons lt]

/-- A change within the running stage leaves the other stages as they are. -/
theorem OnRun.of_change {next : Nat} (on : OnRun plan past next f) (bound : next ≤ past + 1)
    (at_ : plan[past]? = some stage)
    (frame : g.legs = f.legs ∧ g.ended = f.ended ∧ g.pendingStep = f.pendingStep ∧
      g.dispatched = f.dispatched ∧ g.stages = f.stages ∧ g.aborted = f.aborted)
    (live : f.aborted = false) (size : g.build.phases.length = f.build.phases.length)
    (others : ∀ position : Nat, position ∉ stage.members →
      g.build.phases[position]? = f.build.phases[position]?) :
    OnRun plan past (past + 1) g := by
  obtain ⟨legs, ended, step, count, queue, aborted⟩ := frame
  have apart : ∀ (n : Nat) (s : Stage), plan[n]? = some s → n ≠ past → ∀ position ∈ s.members,
      g.build.phases[position]? = f.build.phases[position]? := by
    intro n s hs ne position mem
    refine others position fun here => ?_
    exact on.laid.ne_of_stages hs at_ ne mem here rfl
  refine ⟨legs.trans on.legs, ended.trans on.going, step.trans on.step, count.trans on.count,
    queue.trans on.queue, on.laid.congr size, ?_, ?_, ?_⟩
  · intro n s hs lt
    rw [aborted]
    exact (on.done n s hs lt).congr (apart n s hs (by omega))
  · intro n s hs le
    rw [aborted]
    exact (on.fresh n s hs (by omega)).congr (apart n s hs (by omega))
  · intro abort
    rw [aborted, live] at abort
    cases abort

/-- A stage whose phases are done leaves the queue. -/
theorem OnRun.pop (on : OnRun plan past (past + 1) f) (at_ : plan[past]? = some stage)
    (done : stage.Holds f.build.phases (Phase.Done f.aborted)) :
    OnRun plan (past + 1) (past + 1) { f with stages := f.stages.tail } := by
  refine ⟨on.legs, on.going, on.step, on.count, ?_, on.laid, ?_, on.fresh, on.settles⟩
  · rw [on.stages_eq at_, List.tail_cons]
  · intro n s hs lt
    rcases Nat.lt_succ_iff_lt_or_eq.1 lt with before | here
    · exact on.done n s hs before
    · rw [here, at_] at hs
      cases hs
      exact done

theorem OnRun.offRun (on : OnRun plan past past f) (empty : f.stages = []) :
    OffRun plan f := by
  refine ⟨on.laid, ?_, on.settles⟩
  intro n s hs position mem p at_
  have lt : n < past := by
    have short : plan.length ≤ past := by
      rw [on.queue, List.drop_eq_nil_iff] at empty
      exact empty
    have := (List.getElem?_eq_some_iff.1 hs).1
    omega
  cases aborted : f.aborted with
  | true => exact on.settles aborted p (List.mem_of_getElem? at_)
  | false =>
      rw [(on.done n s hs lt position mem p at_).2 aborted]
      rfl

/-- Behind a failed stage the phases of the stages behind it are canceled. -/
theorem OnRun.offRun_of_failed (on : OnRun plan past (past + 1) f)
    (at_ : plan[past]? = some stage) (live : f.aborted = false)
    (status : stage.Holds f.build.phases fun p => p.status = p.finalResult)
    (complete : stage.Holds f.build.phases (·.finalResult.isTerminal = true)) :
    OffRun plan
      { f with
        build := canceledAt f.build (f.stages.tail.flatMap (·.members)), stages := [] } := by
  refine ⟨on.laid.congr (by simp [canceledAt]), ?_, ?_⟩
  · intro n s hs position mem p at_p
    rw [getElem?_canceledAt, Option.map_eq_some_iff] at at_p
    obtain ⟨q, at_q, rfl⟩ := at_p
    split
    · rfl
    · rename_i spared
      rcases Nat.lt_trichotomy n past with before | here | behind
      · rw [(on.done n s hs before position mem q at_q).2 live]
        rfl
      · rw [here, at_] at hs
        cases hs
        rw [status position mem q at_q]
        exact complete position mem q at_q
      · refine absurd ?_ spared
        rw [on.stages_eq at_, List.tail_cons, List.mem_flatMap]
        refine ⟨s, ?_, mem⟩
        refine List.mem_of_getElem? (i := n - (past + 1)) ?_
        rw [List.getElem?_drop, show past + 1 + (n - (past + 1)) = n by omega]
        exact hs
  · intro abort
    rw [live] at abort
    cases abort

theorem InStage.lane_at (inside : InStage f stage) {i position : Nat}
    (at_ : stage.members[i]? = some position) : ∃ lane, f.lanes[i]? = some lane := by
  have lt : i < f.lanes.length := by
    rw [inside.width]
    exact (List.getElem?_eq_some_iff.1 at_).1
  exact ⟨_, List.getElem?_eq_getElem lt⟩

theorem InStage.status (inside : InStage f stage) (live : f.aborted = false) :
    stage.Holds f.build.phases fun p => p.status = p.finalResult := by
  intro position mem p at_
  rcases List.mem_iff_getElem?.1 mem with ⟨i, member⟩
  rcases inside.lane_at member with ⟨lane, on⟩
  exact (inside.fits i lane position p on member at_).2 live

/-- A stage is complete when none of its lanes waits. -/
theorem InStage.complete_iff (inside : InStage f stage)
    (present : ∀ position ∈ stage.members, position < f.build.phases.length) :
    stage.Holds f.build.phases (·.finalResult.isTerminal = true) ↔
      ∀ lane ∈ f.lanes, lane.awaited = none := by
  constructor
  · intro complete lane mem
    rcases List.mem_iff_getElem?.1 mem with ⟨i, on⟩
    have lt : i < stage.members.length := by
      rw [← inside.width]
      exact (List.getElem?_eq_some_iff.1 on).1
    have member := List.getElem?_eq_getElem lt
    have within := present _ (List.getElem_mem lt)
    have at_ := List.getElem?_eq_getElem within
    exact (inside.fits i lane _ _ on member at_).1.isTerminal_iff.1
      (complete _ (List.getElem_mem lt) _ at_)
  · intro quiet position mem p at_
    rcases List.mem_iff_getElem?.1 mem with ⟨i, member⟩
    rcases inside.lane_at member with ⟨lane, on⟩
    exact (inside.fits i lane position p on member at_).1.isTerminal_iff.2
      (quiet lane (List.mem_of_getElem? on))

theorem Phase.Fresh.begun {aborted : Bool} {p : Phase} (fresh : p.Fresh aborted) (index : Nat) :
    (p.beginRun index).runResults = List.replicate 0 .done ++ [.inFlight] := by
  simp [Phase.beginRun, fresh.1]

/-- The flow with idle lanes for the phases of a stage. -/
def armed (f : Flow) (stage : Stage) : Flow :=
  { f with lanes := List.replicate stage.members.length {} }

/-- The effects of starting the phases of a stage. -/
def fanOut (f : Flow) (stage : Stage) : List Effect :=
  ((f.armed stage).startPhases 0 stage.members).2

theorem startStage_eq (f : Flow) (stage : Stage) :
    f.startStage stage =
      (((f.armed stage).startPhases 0 stage.members).1,
        f.fanOut stage ++ [((f.armed stage).startPhases 0 stage.members).1.snapshot]) :=
  rfl

/-- A stage that is started has every phase waiting on its first command. -/
theorem OnRun.startStage {a : Address} (on : OnRun plan past past f) (live : f.aborted = false)
    (at_ : plan[past]? = some stage) (head : f.chains.address? .runPhase 0 = some a) :
    FanOut (f.armed stage) 0 stage.members a (f.startStage stage).1 (f.fanOut stage) ∧
      OnRun plan past (past + 1) (f.startStage stage).1 ∧
      InStage (f.startStage stage).1 stage := by
  have fan := fanOut_startPhases (f.armed stage) 0 head
    (on.laid.nodup at_) (fun position mem => on.laid.lt_of_mem at_ mem)
    (by simp [armed]) (fun k lt => by simp [armed, lt])
  refine ⟨fan, ?_, ?_⟩
  · refine on.of_change (Nat.le_succ past) at_ ?_ live fan.size fan.others
    rw [startStage_eq, fan.frame]
    simp [armed]
  · refine ⟨fan.width.trans List.length_replicate, ?_⟩
    intro i lane position p lane_at member at_p
    obtain ⟨q, at_q⟩ : ∃ q, f.build.phases[position]? = some q :=
      ⟨_, List.getElem?_eq_getElem
        (on.laid.lt_of_mem at_ (List.mem_of_getElem? member))⟩
    have begun := fan.begun i position q member at_q
    have waits := fan.lanes i (List.getElem?_eq_some_iff.1 member).1
    rw [Nat.zero_add] at begun waits
    have same : q.beginRun i = p := Option.some.inj (begun.symm.trans at_p)
    have lane_eq : Lane.command {} ⟨f.minted + i + 1⟩ = lane :=
      Option.some.inj (waits.symm.trans lane_at)
    subst lane_eq same
    have fresh := on.fresh past stage at_ (Nat.le_refl past) position
      (List.mem_of_getElem? member) q at_q
    have results := Phase.Fresh.begun fresh i
    have chains : (f.startStage stage).1.chains = f.chains := by
      rw [startStage_eq, fan.frame]
      rfl
    refine ⟨.pending _ rfl (Nat.succ_pos 0) ?_ results, fun _ => ?_⟩
    · rw [chains]
      exact (List.getElem?_eq_some_iff.1 head).1
    · rw [Phase.finalResult_of_pending results]
      rfl

/-- A stage was started without providers. -/
structure Skips (plan : List Stage) (past : Nat) (f : Flow) (stage : Stage) : Prop where
  effects : (f.startStage stage).2 = [(f.startStage stage).1.snapshot]
  minted : (f.startStage stage).1.minted = f.minted
  others : ∀ position : Nat, position ∉ stage.members →
    (f.startStage stage).1.build.phases[position]? = f.build.phases[position]?
  onRun : OnRun plan past (past + 1) (f.startStage stage).1
  done : stage.Holds (f.startStage stage).1.build.phases (Phase.Done false)

/-- Without providers every phase of a stage that is started is done at once. -/
theorem OnRun.skips (on : OnRun plan past past f) (live : f.aborted = false)
    (at_ : plan[past]? = some stage) (none_ : f.chains.count .runPhase = 0) :
    Skips plan past f stage := by
  obtain ⟨all, eq, size, others, here⟩ :=
    startPhases_of_no_provider (f.armed stage) 0 none_
      (on.laid.nodup at_) (fun position mem => on.laid.lt_of_mem at_ mem)
  have whole : f.startStage stage =
      ({ f with build := { f.build with phases := all },
                lanes := List.replicate stage.members.length {} },
        [.publish { f.build with phases := all }]) := by
    rw [startStage_eq, fanOut, eq]
    rfl
  refine ⟨by rw [whole]; rfl, by rw [whole], ?_, ?_, ?_⟩
  · rw [whole]
    exact others
  · refine on.of_change (Nat.le_succ past) at_ ?_ live ?_ ?_
    · rw [whole]
      simp
    · rw [whole]
      exact size
    · rw [whole]
      exact others
  · rw [whole]
    intro position mem p at_p
    rcases List.mem_iff_getElem?.1 mem with ⟨i, member⟩
    obtain ⟨q, at_q⟩ : ∃ q, f.build.phases[position]? = some q :=
      ⟨_, List.getElem?_eq_getElem (on.laid.lt_of_mem at_ mem)⟩
    have same : skipped (0 + i) q = p :=
      Option.some.inj ((here i position q member at_q).symm.trans at_p)
    have fresh := on.fresh past stage at_ (Nat.le_refl past) position mem q at_q
    have results : (skipped (0 + i) q).runResults = List.replicate 1 .done :=
      Phase.runResults_finishRun_of_pending .done (Phase.Fresh.begun fresh (0 + i))
    subst same
    have final := Phase.finalResult_of_passed Nat.one_pos results
    refine ⟨final, fun _ => ?_⟩
    rw [← final]
    rfl

/-- What a reply may make of a lane that waits and of its phase. -/
def Keeps (providers : Nat) (phase : Phase → Phase) (change : Lane → Lane) (lane : Lane) : Prop :=
  ∀ p : Phase, lane.Fits providers p → (change lane).Fits providers (phase p) ∧
    (phase p).status = (phase p).finalResult

theorem keeps_failedRun {providers : Nat} {lane : Lane} {token : Token}
    (waits : lane.awaited = some token) : Keeps providers failedRun clearedLane lane := by
  intro p fits
  cases fits with
  | pending _ _ sent within results =>
      have failed : (failedRun p).runResults =
          List.replicate (lane.sent - 1) .done ++ [.failed] :=
        Phase.runResults_finishRun_of_pending .failed results
      exact ⟨.failed rfl sent within failed, (Phase.finalResult_of_failed failed).symm⟩
  | passed awaited => simp [awaited] at waits
  | failed awaited => simp [awaited] at waits

theorem runResults_passedRun (patch : PhasePatch) {p : Phase} {n : Nat}
    (results : p.runResults = List.replicate n .done ++ [.inFlight]) :
    (passedRun patch p).runResults = List.replicate (n + 1) .done := by
  have finished := Phase.runResults_finishRun_of_pending .done results
  rw [List.replicate_succ']
  unfold passedRun
  split
  · exact finished
  · exact finished

theorem keeps_settledRun {providers : Nat} {lane : Lane} {token : Token} (patch : PhasePatch)
    (waits : lane.awaited = some token) (last : providers ≤ lane.sent) :
    Keeps providers (settledRun patch) clearedLane lane := by
  intro p fits
  refine ⟨?_, rfl⟩
  cases fits with
  | pending _ _ sent within results =>
      have all : lane.sent - 1 + 1 = providers := by omega
      have passed : (settledRun patch p).runResults = List.replicate providers .done := by
        rw [← all]
        exact runResults_passedRun patch results
      exact .passed rfl sent (Nat.le_antisymm within last) passed
  | passed awaited => simp [awaited] at waits
  | failed awaited => simp [awaited] at waits

theorem keeps_nextRun {providers : Nat} {lane : Lane} {token : Token} (patch : PhasePatch)
    (next : Token) (waits : lane.awaited = some token) (more : lane.sent < providers) :
    Keeps providers (nextRun patch) (Lane.command · next) lane := by
  intro p fits
  cases fits with
  | pending _ _ sent within results =>
      have passed := runResults_passedRun patch results
      rw [Nat.sub_add_cancel sent] at passed
      have begun : (nextRun patch p).runResults =
          List.replicate ((Lane.command lane next).sent - 1) .done ++ [.inFlight] := by
        simp [nextRun, Phase.beginRun, passed, Lane.command]
      exact ⟨.pending next rfl (Nat.succ_pos _) more begun,
        (Phase.finalResult_of_pending begun).symm⟩
  | passed awaited => simp [awaited] at waits
  | failed awaited => simp [awaited] at waits

/-- A reply to a phase of the running stage leaves the flow on the stage. -/
theorem OnRun.replied {i position minted : Nat} {lane : Lane} {e : Event} {phase : Phase → Phase}
    {change : Lane → Lane} (on : OnRun plan past (past + 1) f) (live : f.aborted = false)
    (at_ : plan[past]? = some stage) (inside : InStage f stage) (lane_at : f.lanes[i]? = some lane)
    (member : stage.members[i]? = some position)
    (keeps : Keeps (f.chains.count .runPhase) phase change lane) :
    OnRun plan past (past + 1) (f.replied e i position phase change minted) ∧
      InStage (f.replied e i position phase change minted) stage := by
  constructor
  · refine on.of_change (Nat.le_refl _) at_ ⟨rfl, rfl, rfl, rfl, rfl, rfl⟩ live
      (List.length_modify ..) ?_
    intro other out
    have ne : position ≠ other := fun same => out (same ▸ List.mem_of_getElem? member)
    simp [Flow.replied, ne]
  · refine ⟨(List.length_modify ..).trans inside.width, ?_⟩
    intro j lane' position' p on_j member_j at_p
    simp only [Flow.replied] at on_j at_p
    by_cases here : i = j
    · subst here
      have same : position = position' := Option.some.inj (member.symm.trans member_j)
      subst same
      obtain rfl : change lane = lane' := by simpa [lane_at] using on_j
      obtain ⟨q, at_q, rfl⟩ : ∃ q, f.build.phases[position]? = some q ∧ phase q = p := by
        simpa using at_p
      rcases keeps q (inside.fits i lane position q lane_at member at_q).1 with ⟨fits, status⟩
      exact ⟨fits, fun _ => status⟩
    · have ne : position ≠ position' := by
        intro same
        subst same
        exact here ((List.getElem?_inj (List.getElem?_eq_some_iff.1 member).1
          (on.laid.nodup at_)).1 (member.trans member_j.symm))
      rw [List.getElem?_modify_ne _ _ here] at on_j
      rw [List.getElem?_modify_ne _ _ ne] at at_p
      exact inside.fits j lane' position' p on_j member_j at_p

/-- The check of the running stage: the flow waits on it, or is behind it, or the run is cut. -/
theorem OnRun.checkStage (on : OnRun plan past (past + 1) f) (live : f.aborted = false)
    (at_ : plan[past]? = some stage) (inside : InStage f stage) :
    Leads plan (past + 1) (f.checkStage stage) := by
  by_cases complete : stage.Holds f.build.phases (·.finalResult.isTerminal = true)
  · by_cases done : stage.Holds f.build.phases (·.finalResult = .done)
    · rw [checkStage_of_successful done]
      refine .again (.run (on.pop at_ ?_)) _
      intro position mem p at_p
      have final := done position mem p at_p
      exact ⟨final, fun _ => (inside.status live position mem p at_p).trans final⟩
    · rw [checkStage_of_failed complete done]
      refine .again ?_ _
      exact .cut on.legs on.going rfl
        (on.offRun_of_failed at_ live (inside.status live) complete)
  · rw [checkStage_of_incomplete complete]
    exact .wait (.run past stage on at_ rfl inside complete) _

end Run

/-! ## Set-up and tear-down -/

section Steps

variable {plan : List Stage} {f g : Flow} {now : Moment}

/-- The flow behind the command of a step. -/
def commanded (f : Flow) : Flow :=
  { f with
    dispatched := f.dispatched + 1
    pendingStep := some f.nextToken
    minted := f.minted + 1 }

theorem commandStep_of_address (leg : Leg) {a : Address}
    (next : f.chains.address? leg.capability f.dispatched = some a) :
    f.commandStep leg = .wait f.commanded [.dispatch a (f.stepCommand leg)] := by
  simp only [commandStep, next]
  rfl

theorem commandStep_of_none (leg : Leg)
    (last : f.chains.address? leg.capability f.dispatched = none) :
    f.commandStep leg = .again f.leaveLeg [] := by
  simp only [commandStep, last]

theorem OffRun.congr (off : OffRun plan f) (phases : g.build.phases = f.build.phases)
    (aborted : g.aborted = f.aborted) : OffRun plan g := by
  refine ⟨phases ▸ off.laid, phases ▸ off.finished, ?_⟩
  unfold AbortSettles
  rw [phases, aborted]
  exact off.settles

theorem isTerminal_of_mem_settlePhases {b : Build} {s : Status} (finished : s.isTerminal = true)
    {p : Phase} (mem : p ∈ (b.settlePhases s).phases) : p.status.isTerminal = true := by
  rcases List.mem_map.1 mem with ⟨q, -, rfl⟩
  split
  · exact finished
  · rename_i kept
    simpa [Status.isCancellable] using kept

/-- A failed step ends every phase. -/
theorem offRun_failBuild (e : Event) (now : Moment) (laid : Laid plan f.build.phases) :
    OffRun plan (f.failBuild e now) := by
  have finished : ∀ p ∈ (f.failBuild e now).build.phases, p.status.isTerminal = true :=
    fun p mem => isTerminal_of_mem_settlePhases (s := .failed) rfl mem
  exact ⟨laid.congr (List.length_map ..),
    fun n s _ position _ p at_ => finished p (List.mem_of_getElem? at_), fun _ => finished⟩

theorem OnSetup.leaveLeg (on : OnSetup plan f) : OnRun plan 0 0 f.leaveLeg := by
  refine ⟨by simp [Flow.leaveLeg, on.legs], on.going, rfl, rfl, on.queue, on.laid, ?_,
    fun n s hs _ => on.fresh n s hs, on.settles⟩
  intro n s hs lt
  exact absurd lt (Nat.not_lt_zero n)

/-- The plan behind an event that brings stages, if it brings any. -/
def planned (plan : List Stage) (stages : Option (List (List Phase))) : List Stage :=
  (stages.map fun loaded => consecutive 0 (loaded.map List.length)).getD plan

theorem OnSetup.adopt (on : OnSetup plan f) (live : f.aborted = false) (e : Event) :
    OnSetup (planned plan e.stages) (f.adopt e) := by
  cases stages : e.stages with
  | none =>
      simp only [Flow.adopt, stages, loadStages?, planned, Option.map_none, Option.getD_none]
      exact ⟨on.legs, on.going, on.lanes, on.queue, on.laid, on.fresh, on.settles⟩
  | some loaded =>
      simp only [Flow.adopt, stages, loadStages?, planned, Option.map_some, Option.getD_some,
        loadStages]
      refine ⟨on.legs, on.going, on.lanes, rfl, laid_consecutive loaded, ?_, ?_⟩
      · intro n s _ position _ p at_
        rcases List.mem_map.1 (List.mem_of_getElem? at_) with ⟨q, -, rfl⟩
        exact ⟨rfl, fun _ => rfl⟩
      · intro abort
        rw [live] at abort
        cases abort

end Steps

end Flow
end BuildPipeline
