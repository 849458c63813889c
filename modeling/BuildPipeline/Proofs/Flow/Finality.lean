import BuildPipeline.Proofs.Flow.Aborting
import BuildPipeline.Proofs.Flow.Verdict

/-!
What becomes of the status of a build once it is terminal. A flow keeps its build in flight until a
step of set-up fails; from then on the build is failed and the flow is on tear-down
(`Flow.StatusFits`). So an event finds a terminal status there only, or where the flow was aborted
or is over, and it leaves the status as it is (`Flow.StatusFits.process`).

An abort does not look at the status. The first one cancels the build of a flow that tears down
behind a failure, and of one that is over (`Course.Unchecked.final`, `Course.overruled`).
-/

namespace BuildPipeline

open Time (Moment)

namespace Flow

/-- What the status of a build says of its flow. -/
inductive StatusFits (f : Flow) : Prop
  | inFlight (live : f.aborted = false) (status : f.build.status = .inFlight)
  | failed (live : f.aborted = false) (legs : f.legs = [.tearDown])
      (status : f.build.status = .failed)
  | canceled (aborted : f.aborted = true) (status : f.build.status = .canceled)
  | finished (legs : f.legs = []) (ended : f.ended = true)
      (terminal : f.build.status.isTerminal = true)

/-- The flow `g` keeps the status of the build of `f`, if that one is terminal. -/
structure Firm (f g : Flow) : Prop where
  fits : StatusFits g
  kept : f.build.status.isTerminal = true → g.build.status = f.build.status

/-- The call is the first abort of the flow. -/
def FirstAborts (f : Flow) (call : Call) : Prop :=
  f.aborted = false ∧ ∃ now, call = .abort now

section StatusFits

variable {f g h : Flow} {leg : Leg} {rest : List Leg} {torn : Nat} {e : Event} {now : Moment}

theorem Firm.trans (first : Firm f g) (second : Firm g h) : Firm f h := by
  refine ⟨second.fits, fun terminal => ?_⟩
  have kept := first.kept terminal
  rw [second.kept (kept ▸ terminal), kept]

theorem StatusFits.not_terminal (fits : StatusFits f) (live : f.aborted = false)
    (legs : f.legs = leg :: rest) (ne : leg ≠ .tearDown) :
    f.build.status = .inFlight := by
  cases fits with
  | inFlight _ status => exact status
  | failed _ legs' =>
      cases legs'.symm.trans legs
      exact absurd rfl ne
  | canceled aborted =>
      rw [live] at aborted
      cases aborted
  | finished legs' => cases legs'.symm.trans legs

/-- What stays in flight is firm. -/
theorem firm_inFlight (status : f.build.status = .inFlight) (live : g.aborted = false)
    (same : g.build.status = f.build.status) : Firm f g :=
  ⟨.inFlight live (same.trans status), fun _ => same⟩

theorem StatusFits.congr (fits : StatusFits f) (status : g.build.status = f.build.status)
    (aborted : g.aborted = f.aborted) (legs : g.legs = f.legs) (ended : g.ended = f.ended) :
    Firm f g := by
  refine ⟨?_, fun _ => status⟩
  cases fits with
  | inFlight live inFlight => exact .inFlight (aborted.trans live) (status.trans inFlight)
  | failed live on failed =>
      exact .failed (aborted.trans live) (legs.trans on) (status.trans failed)
  | canceled mark canceled => exact .canceled (aborted.trans mark) (status.trans canceled)
  | finished none_ mark terminal =>
      exact .finished (legs.trans none_) (ended.trans mark) (status ▸ terminal)

/-! ## Turns -/

theorem status_takePhase (f : Flow) (stage : Stage) (e : Event) :
    (f.takePhase stage e).flow.build.status = f.build.status := by
  unfold takePhase
  dsimp only
  split
  · rfl
  · rename_i patch _
    split
    · rfl
    · rename_i position _
      have adopted : ((f.clearLane patch.index).adoptChild e.childRepository).build.status =
          f.build.status := by
        cases e.childRepository <;> rfl
      generalize (f.clearLane patch.index).adoptChild e.childRepository = h at adopted
      rw [← adopted]
      split
      · split
        · unfold phasePassed
          split
          · exact (plain_checkStage _ stage).1.status
          · exact (plain_commandPhase _ patch.index position).1.status
        · exact (plain_checkStage _ stage).1.status
      · rfl

theorem StatusFits.runTurn (fits : StatusFits f) (legs : f.legs = .run :: rest)
    (live : f.aborted = false)
    (o : Option Event) : Firm f (f.runTurn o).flow := by
  have status := fits.not_terminal live legs (by decide)
  refine firm_inFlight status ((steady_runTurn f o).aborted.trans live) ?_
  unfold Flow.runTurn
  split
  · rfl
  · rename_i stage _ _
    have started := (plain_startStage f stage).1.status
    exact (plain_checkStage (f.startStage stage).1 stage).1.status.trans started
  · rename_i stage _ e _
    exact status_takePhase f stage e

theorem status_adopt (f : Flow) (e : Event) : (f.adopt e).build.status = f.build.status := by
  unfold Flow.adopt loadStages?
  cases e.stages <;> rfl

theorem StatusFits.adopt (fits : StatusFits f) (e : Event) : Firm f (f.adopt e) := by
  unfold Flow.adopt loadStages?
  cases e.stages <;> exact fits.congr rfl rfl rfl rfl

theorem StatusFits.setupTurn (fits : StatusFits f) (stands : Stands f torn)
    (legs : f.legs = .setup :: rest) (live : f.aborted = false) (o : Option Event) :
    Firm f (f.setupTurn now o).flow := by
  have status := fits.not_terminal live legs (by decide)
  have aborted := (steady_setupTurn f now o).aborted.trans live
  cases o with
  | none => exact firm_inFlight status aborted (plain_commandStep f .setup).1.status
  | some e =>
      cases success : e.isSuccess with
      | true =>
          have taken : f.clearStep.takeStep e now =
              (f.clearStep.adopt e, [(f.clearStep.adopt e).snapshot], true) := by
            simp [takeStep, clearStep, live, success]
          refine firm_inFlight status aborted ?_
          simp only [Flow.setupTurn, taken, Turn.behind]
          rw [(plain_commandStep (f.clearStep.adopt e) .setup).1.status, status_adopt]
          rfl
      | false =>
          have way : f.legs = [.setup, .run, .tearDown] := stands.legs_eq (leg?_of_legs legs)
          refine ⟨.failed aborted ?_ ?_, fun terminal => ?_⟩
          · simp [Flow.setupTurn, takeStep, clearStep, live, success, failBuild, Turn.again,
              leaveLeg, way]
          · simp [Flow.setupTurn, takeStep, clearStep, live, success, failBuild, Turn.again,
              leaveLeg, Build.markFailed]
          · rw [status] at terminal
            cases terminal

/-- The end of tear-down passes a verdict only on a build that is in flight. -/
theorem StatusFits.conclude (fits : StatusFits f) (legs : f.legs = [.tearDown]) :
    Firm f (f.conclude now).flow := by
  have judged : (f.build.markComplete now).status.isTerminal = true := by
    simp only [Build.markComplete]
    split <;> rfl
  unfold Flow.conclude
  cases fits with
  | inFlight live status =>
      rw [if_pos ⟨by simp [status], by simp [live]⟩]
      refine ⟨.finished rfl rfl judged, fun terminal => ?_⟩
      rw [status] at terminal
      cases terminal
  | failed live _ status =>
      rw [if_neg fun sound => sound.1 status]
      exact ⟨.finished rfl rfl (congrArg Status.isTerminal status), fun _ => rfl⟩
  | canceled aborted status =>
      rw [if_neg fun sound => by simp [aborted] at sound]
      exact ⟨.finished rfl rfl (congrArg Status.isTerminal status), fun _ => rfl⟩
  | finished none_ => cases none_.symm.trans legs

theorem StatusFits.goOnTearDown (fits : StatusFits f) (legs : f.legs = [.tearDown]) :
    Firm f (f.goOnTearDown now).flow := by
  unfold Flow.goOnTearDown
  split
  · rename_i more
    rw [commandStep_of_address .tearDown (List.getElem?_eq_getElem more)]
    exact fits.congr rfl rfl rfl rfl
  · exact fits.conclude legs

/-- What a flow makes of the reply to a step of tear-down. -/
theorem StatusFits.takeStep (fits : StatusFits f) (legs : f.legs = [.tearDown]) (e : Event)
    (now : Moment) :
    Firm f (f.takeStep e now).1 ∧ (f.takeStep e now).1.legs = [.tearDown] ∧
      ((f.takeStep e now).2.2 = false →
        (f.takeStep e now).1.build.status.isTerminal = true) := by
  unfold Flow.takeStep
  split
  · exact ⟨fits.congr rfl rfl rfl rfl, legs, nofun⟩
  · rename_i unaborted
    have live : f.aborted = false := by simpa using unaborted
    split
    · exact ⟨fits.adopt e, (legs_adopt f e).trans legs, nofun⟩
    · refine ⟨⟨.failed live legs rfl, fun terminal => ?_⟩, legs, fun _ => rfl⟩
      cases fits with
      | inFlight _ status =>
          rw [status] at terminal
          cases terminal
      | failed _ _ status => exact status.symm
      | canceled aborted => exact absurd aborted unaborted
      | finished none_ => cases none_.symm.trans legs

theorem StatusFits.tearDownTurn (fits : StatusFits f) (legs : f.legs = [.tearDown])
    (o : Option Event) :
    Firm f (f.tearDownTurn now o).flow := by
  cases o with
  | none => exact fits.goOnTearDown legs
  | some e =>
      have cleared : Firm f f.clearStep := fits.congr rfl rfl rfl rfl
      obtain ⟨taken, legs', judged⟩ := cleared.fits.takeStep legs e now
      simp only [Flow.tearDownTurn]
      rcases step : f.clearStep.takeStep e now with ⟨g, effects, sound⟩
      rw [step] at taken legs' judged
      have way : Firm f g := cleared.trans taken
      cases sound with
      | true => exact way.trans (way.fits.goOnTearDown legs')
      | false => exact ⟨.finished rfl rfl (judged rfl), way.kept⟩

/-- Every turn keeps a terminal status. -/
theorem StatusFits.turn (fits : StatusFits f) (stands : Stands f torn) (legs : f.legs = leg :: rest)
    (o : Option Event) : Firm f (f.turn leg o now).flow := by
  unfold Flow.turn
  split
  · rename_i drops
    refine ⟨?_, fun _ => rfl⟩
    cases fits with
    | inFlight live => simp [live] at drops
    | failed live => simp [live] at drops
    | canceled aborted status => exact .canceled aborted status
    | finished none_ => cases none_.symm.trans legs
  · rename_i keeps
    have live : leg ≠ .tearDown → f.aborted = false := fun ne => by simpa [ne] using keeps
    cases leg with
    | setup => exact fits.setupTurn stands legs (live (by decide)) o
    | run => exact fits.runTurn legs (live (by decide)) o
    | tearDown => exact fits.tearDownTurn (stands.legs_eq (leg?_of_legs legs)) o

/-! ## Calls -/

theorem StatusFits.drive (fits : StatusFits f) (stands : Stands f torn) (o : Option Event)
    (now : Moment) :
    Firm f (f.drive o now).1 := by
  fun_induction Flow.drive f o now generalizing torn with
  | case1 => exact fits.congr rfl rfl rfl rfl
  | case2 f o leg rest legs goesOn g effects driven ih =>
      have turned : Firm f (f.turn leg o now).flow := fits.turn stands legs o
      have next := ih turned.fits (stands.turn legs)
      rw [driven] at next
      exact turned.trans next
  | case3 f o leg rest legs waits => exact fits.turn stands legs o

/-- An event leaves a terminal status as it is. -/
theorem StatusFits.process (fits : StatusFits f) (stands : Stands f torn) (e : Event)
    (now : Moment) :
    Firm f (f.process e now).1 := by
  cases accepted : f.accepts e with
  | true =>
      rw [process_of_accepted accepted]
      exact fits.drive stands (some e) now
  | false =>
      have ignores := ignores_of_rejected accepted now
      generalize f.process e now = r at ignores
      cases ignores with
      | same => exact fits.congr rfl rfl rfl rfl
      | updates => exact fits.congr rfl rfl rfl rfl

/-- The first abort cancels the build, whatever its status. -/
theorem status_abort (live : f.aborted = false) (now : Moment) :
    (f.abort now).1.build.status = .canceled ∧ (f.abort now).1.aborted = true := by
  have cancels := cancels_abort live now
  exact ⟨by rw [cancels.build], by rw [cancels.frame]⟩

theorem StatusFits.abort (fits : StatusFits f) (now : Moment) : StatusFits (f.abort now).1 := by
  cases aborted : f.aborted with
  | true =>
      rw [abort_of_aborted aborted now]
      exact fits
  | false =>
      obtain ⟨status, aborted⟩ := status_abort aborted now
      exact .canceled aborted status

end StatusFits

end Flow

namespace Course

section Final

variable {build : Build} {script : Option String} {chains : Chains} {c : Course} {call : Call}

theorem Unchecked.statusFits (run : Unchecked build script chains c) : c.flow.StatusFits := by
  induction run with
  | start now =>
      have takenOff : (idle build script chains).flow.takeOff.StatusFits := .inFlight rfl rfl
      exact (takenOff.drive (.setup rfl rfl) none now).fits
  | step run call later fits =>
      cases call with
      | start => exact later.elim
      | process e now => exact (fits.process run.stands e now).fits
      | abort now => exact fits.abort now

/-- A terminal status is final but for the first abort, which cancels the build of a flow that tears
down behind a failure, or that is over. -/
theorem Unchecked.final (run : Unchecked build script chains c) (later : call.Later)
    (terminal : c.flow.build.status.isTerminal = true) :
    (¬c.flow.FirstAborts call →
      (c.then_ call).flow.build.status = c.flow.build.status) ∧
    (c.flow.FirstAborts call →
      (c.then_ call).flow.build.status = .canceled ∧
        (c.flow.leg? = some .tearDown ∧ c.flow.build.status = .failed ∨ c.flow.ended = true)) := by
  refine ⟨fun other => ?_, ?_⟩
  · cases call with
    | start => exact later.elim
    | process e now => exact (run.statusFits.process run.stands e now).kept terminal
    | abort now =>
        have aborted : c.flow.aborted = true := by
          cases live : c.flow.aborted with
          | true => rfl
          | false => exact absurd ⟨live, now, rfl⟩ other
        exact congrArg (·.1.build.status) (Flow.abort_of_aborted aborted now)
  · intro first
    obtain ⟨live, now, rfl⟩ := first
    refine ⟨(Flow.status_abort live now).1, ?_⟩
    cases run.statusFits with
    | inFlight _ status =>
        rw [status] at terminal
        cases terminal
    | failed _ legs status => exact .inl ⟨Flow.leg?_of_legs legs, status⟩
    | canceled aborted =>
        rw [live] at aborted
        cases aborted
    | finished _ ended => exact .inr ended

/-- A build that failed in set-up, while it waits for its one provider of tear-down. -/
def fallen : Course :=
  let chains : Chains := { shortChains with tearDown := [⟨.tearDown, 0, 0⟩] }
  let begun := (idle { id := ⟨"b"⟩, createdAt := Moment.origin } none chains).then_
    (.start Moment.origin)
  begun.then_ (failure .setupEnd ⟨1⟩)

theorem unchecked_fallen :
    Unchecked { id := ⟨"b"⟩, createdAt := Moment.origin } none
      { shortChains with tearDown := [⟨.tearDown, 0, 0⟩] } fallen :=
  .step (.start Moment.origin) _ trivial

theorem final_fallen :
    fallen.flow.build.status = .failed ∧
      (fallen.then_ (failure .tearDownEnd ⟨2⟩)).flow.build.status = .failed ∧
      (fallen.then_ (.abort Moment.origin)).flow.build.status = .canceled := by
  have failed : fallen.flow.build.status = .failed := by cbv
  have live : fallen.flow.aborted = false := by cbv
  have terminal : fallen.flow.build.status.isTerminal = true := congrArg Status.isTerminal failed
  have later : (failure .tearDownEnd ⟨2⟩).Later := trivial
  have later' : (Call.abort Moment.origin).Later := trivial
  have reply : ¬fallen.flow.FirstAborts (failure .tearDownEnd ⟨2⟩) := by
    intro first
    obtain ⟨-, now, is_abort⟩ := first
    cases is_abort
  have abort : fallen.flow.FirstAborts (.abort Moment.origin) := ⟨live, _, rfl⟩
  have kept := (Unchecked.final unchecked_fallen later terminal).1 reply
  have changed := (Unchecked.final unchecked_fallen later' terminal).2 abort
  exact ⟨failed, kept.trans failed, changed.1⟩

/-- A terminal status is not final: an abort cancels a build that failed. -/
theorem overruled :
    ∃ (build : Build) (script : Option String) (chains : Chains) (c : Course) (call : Call),
      Unchecked build script chains c ∧ call.Later ∧ c.flow.build.status.isTerminal = true ∧
        (c.then_ call).flow.build.status ≠ c.flow.build.status := by
  refine ⟨_, _, _, fallen, .abort Moment.origin, unchecked_fallen, trivial, by cbv, ?_⟩
  have failed : fallen.flow.build.status = .failed := by cbv
  have canceled : (fallen.then_ (.abort Moment.origin)).flow.build.status = .canceled := by cbv
  rw [failed, canceled]
  decide

end Final

end Course
end BuildPipeline
