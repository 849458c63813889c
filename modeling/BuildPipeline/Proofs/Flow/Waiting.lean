import BuildPipeline.Proofs.Flow.Slots

/-!
What a flow waits on. Behind every call a flow is over and waits on nothing, or it waits on
something: on set-up and on tear-down on one step, on the run on those phases of the running stage
that are in flight. The results of a phase and its status go with what is waited on for it
(`Flow.OnLane`). `Flow.Poised` says all this of a flow, and `Course.Of.poised` that it holds behind
every call of a course, so that no flow is left without anybody to wait for.
-/

namespace BuildPipeline

open Time (Moment)

namespace Flow

/-- How a phase of the running stage goes with what is waited on at its index. While it is in flight
it has one result for every command that was sent for it, the last of which is pending; a phase that
is over passed every provider or failed at one. -/
structure OnLane (chains : Chains) (f : Flow) (index : Nat) (p : Phase) : Prop where
  waits_iff : (∃ t, f.awaited? index = some t) ↔ p.finalResult = .inFlight
  pending : p.finalResult = .inFlight →
    (∃ n, p.runResults = List.replicate n .done ++ [.inFlight]) ∧
      f.progress? index = some p.runResults.length ∧
      p.runResults.length ≤ chains.count .runPhase
  settled : p.finalResult ≠ .inFlight →
    p.runResults = List.replicate (chains.count .runPhase) .done ∨
      ∃ n, p.runResults = List.replicate n .done ++ [.failed]
  status : f.aborted = false → p.status = p.finalResult

/-- What a flow waits on goes with where it is. -/
structure Poised (chains : Chains) (f : Flow) : Prop where
  waits : f.ended = true ∧ f.leg? = none ∧ f.outstanding = [] ∨
    f.ended = false ∧ f.leg? ≠ none ∧ f.outstanding ≠ []
  step : f.leg? = some .setup ∨ f.leg? = some .tearDown →
    (∃ t, f.outstanding = [t] ∧ f.pendingStep = some t) ∧ ∀ index, f.awaited? index = none
  run : f.leg? = some .run → ∃ s rest, f.stages = s :: rest ∧
    (∀ t, t ∈ f.outstanding ↔ ∃ index, f.awaited? index = some t) ∧
    (∀ index t, f.awaited? index = some t → index < s.members.length) ∧
    ∀ index position, s.position? index = some position →
      ∃ p, f.build.phases[position]? = some p ∧ f.OnLane chains index p

section Poised

variable {plan : List Stage} {begun past index position : Nat} {f : Flow} {stage : Stage}
  {lane : Lane} {p : Phase} {t : Token}

theorem outstanding_of_step (lanes : f.lanes = []) (step : f.pendingStep = some t) :
    f.outstanding = [t] ∧ ∀ index, f.awaited? index = none := by
  constructor
  · simp [outstanding, lanes, step]
  · intro index
    simp [awaited?, lanes]

theorem InStage.onLane (inside : InStage f stage) (lane_at : f.lanes[index]? = some lane)
    (member : stage.members[index]? = some position) (at_ : f.build.phases[position]? = some p) :
    f.OnLane f.chains index p := by
  rcases inside.fits index lane position p lane_at member at_ with ⟨fits, status⟩
  have awaited : f.awaited? index = lane.awaited := by
    rw [awaited?, lane_at, Option.bind_some]
  cases fits with
  | pending token waits sent within results =>
      have final := Phase.finalResult_of_pending results
      have length : p.runResults.length = lane.sent := by
        rw [results, List.length_append, List.length_replicate, List.length_singleton]
        omega
      refine ⟨?_, fun _ => ⟨⟨_, results⟩, ?_, length ▸ within⟩, fun other => absurd final other,
        status⟩
      · rw [awaited, waits, final]
        exact ⟨fun _ => rfl, fun _ => ⟨token, rfl⟩⟩
      · simp [progress?, lane_at, length, Nat.pos_iff_ne_zero.1 sent]
  | passed none_ sent within results =>
      have final := Phase.finalResult_of_passed (within ▸ sent) results
      refine ⟨?_, fun pending => ?_, fun _ => .inl results, status⟩
      · simp [awaited, none_, final]
      · rw [final] at pending
        cases pending
  | failed none_ sent within results =>
      have final := Phase.finalResult_of_failed results
      refine ⟨?_, fun pending => ?_, fun _ => .inr ⟨_, results⟩, status⟩
      · simp [awaited, none_, final]
      · rw [final] at pending
        cases pending

/-- On the run nothing but the phases of the running stage is waited on. -/
theorem OnRun.mem_outstanding {next : Nat} (on : OnRun plan past next f) :
    t ∈ f.outstanding ↔ ∃ index, f.awaited? index = some t := by
  rw [mem_outstanding_iff_slot]
  constructor
  · rintro ⟨slot, filled⟩
    cases slot with
    | none => cases on.step.symm.trans filled
    | some index => exact ⟨index, filled⟩
  · rintro ⟨index, filled⟩
    exact ⟨some index, filled⟩

/-- A stage that is not complete has a phase that is waited on. -/
theorem InStage.waits (inside : InStage f stage) (on : OnRun plan past (past + 1) f)
    (at_ : plan[past]? = some stage)
    (open_ : ¬stage.Holds f.build.phases (·.finalResult.isTerminal = true)) :
    f.outstanding ≠ [] := by
  intro idle
  refine open_ ((inside.complete_iff fun position mem => on.laid.lt_of_mem at_ mem).2 ?_)
  intro lane mem
  cases awaited : lane.awaited with
  | none => rfl
  | some t =>
      have waits : t ∈ f.outstanding := Flow.mem_outstanding.2 (.inr ⟨lane, mem, awaited⟩)
      rw [idle] at waits
      cases waits

theorem poised_of_rests (rests : Rests plan begun f) : f.Poised f.chains := by
  cases rests with
  | setup on none_ sent within step =>
      have leg := leg?_of_legs on.legs
      rcases outstanding_of_step on.lanes step with ⟨one, idle⟩
      refine ⟨.inr ⟨on.going, by simp [leg], by simp [one]⟩, fun _ => ⟨⟨_, one, step⟩, idle⟩, ?_⟩
      intro run
      cases leg.symm.trans run
  | run past stage on at_ last inside open_ =>
      have leg := leg?_of_legs on.legs
      refine ⟨.inr ⟨on.going, by simp [leg], inside.waits on at_ open_⟩, ?_, fun _ => ?_⟩
      · rintro (other | other) <;> cases leg.symm.trans other
      · refine ⟨stage, _, on.stages_eq at_, fun t => on.mem_outstanding, ?_, ?_⟩
        · intro index t awaited
          rcases Option.bind_eq_some_iff.1 awaited with ⟨lane, lane_at, -⟩
          rw [← inside.width]
          exact (List.getElem?_eq_some_iff.1 lane_at).1
        · intro index position member
          rcases inside.lane_at member with ⟨lane, lane_at⟩
          have within := on.laid.lt_of_mem at_ (List.mem_of_getElem? member)
          have at_p := List.getElem?_eq_getElem within
          exact ⟨_, at_p, inside.onLane lane_at member at_p⟩
  | tearDown legs going off lanes sent within step =>
      have leg := leg?_of_legs legs
      rcases outstanding_of_step lanes step with ⟨one, idle⟩
      refine ⟨.inr ⟨going, by simp [leg], by simp [one]⟩, fun _ => ⟨⟨_, one, step⟩, idle⟩, ?_⟩
      intro run
      cases leg.symm.trans run
  | finished legs ended off lanes step =>
      have leg : f.leg? = none := by simp [leg?, legs]
      refine ⟨.inl ⟨ended, leg, by simp [outstanding, lanes, step]⟩, ?_, ?_⟩
      · rintro (other | other) <;> cases leg.symm.trans other
      · intro run
        cases leg.symm.trans run

end Poised

end Flow

namespace Course

variable {build : Build} {script : Option String} {chains : Chains} {c : Course}

/-- Behind every call of a course the flow is over, or it waits on what it should. -/
theorem Of.poised (of : Of build script chains c) : c.flow.Poised chains := by
  have poised := Flow.poised_of_rests of.rests
  rwa [of.chains_eq] at poised

/-- A stage of two phases, one of which has failed while the other is at its second provider. -/
def halfWay : Course :=
  let id : BuildId := ⟨"b"⟩
  let begun :=
    (idle { id, createdAt := Moment.origin } none shortChains).then_ (.start Moment.origin)
  let stages := [[{ id := "p" }, { id := "q" }]]
  let loaded := begun.then_ (.process
    { kind := .setupEnd, buildId := id, token := ⟨1⟩, stages := some stages } Moment.origin)
  let failed := loaded.then_ (.process
    { kind := .phaseEnd, buildId := id, token := ⟨2⟩, statusCode := 500,
      phase := some ⟨0, none, none, none⟩ }
    Moment.origin)
  failed.then_ (.process
    { kind := .phaseEnd, buildId := id, token := ⟨3⟩, phase := some ⟨1, none, none, none⟩ }
    Moment.origin)

theorem of_halfWay :
    Of { id := ⟨"b"⟩, createdAt := Moment.origin } none shortChains halfWay := by
  refine .step (.step (.step (.start Moment.origin) _ ?_) _ ?_) _ ?_
  · exact fun _ => rfl
  · exact fun stages => absurd rfl stages
  · exact fun stages => absurd rfl stages

theorem poised_halfWay :
    halfWay.flow.leg? = some .run ∧
      halfWay.flow.build.phases.map (·.runResults) = [[.failed], [.done, .inFlight]] ∧
      halfWay.flow.Poised shortChains :=
  ⟨by cbv, by cbv, Of.poised of_halfWay⟩

end Course
end BuildPipeline
