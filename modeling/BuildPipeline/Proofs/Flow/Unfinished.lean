import BuildPipeline.Proofs.Flow.Lifecycle
import BuildPipeline.Proofs.Flow.Outcome

/-!
What a finished build shows of its phases. The phases that set-up loaded all have a place in the
plan, so they are over when the run is; an abort and a failed step give up the phases that the build
has. A build that ends without any of this shows the phases that it came with as they were, also
those that are still parked (`Course.Of.phases_of_finish`).
-/

namespace BuildPipeline

open Time (Moment)

namespace Flow

section Unplanned

variable {begun : Nat} {f g : Flow} {e : Event} {now : Moment} {effects : List Effect}
  {started : List Stage} {leg : Leg} {t : Turn}

/-- Without a plan nothing is started, so no phase is touched. -/
theorem Lands.phases_of_unplanned (lands : Lands [] begun f effects started g) :
    g.build.phases = f.build.phases := by
  have nothing : ∀ s, s ∉ started := by
    intro s mem
    obtain ⟨j, at_⟩ := List.mem_iff_getElem?.1 mem
    cases lands.planned j s at_
  exact List.ext_getElem? fun position => lands.phases fun s mem => absurd mem (nothing s)

/-- What becomes of the phases when an event is taken and there is no plan: they stay, or a step has
failed and gives them up. -/
inductive Spared (f : Flow) (e : Event) (g : Flow) : Prop
  | stay (same : g.build.phases = f.build.phases) (goesOn : e.isSuccess = true ∨ f.aborted = true)
  | givenUp (over_ : ∀ p ∈ g.build.phases, p.status.isTerminal = true) (fails : e.isSuccess = false)

theorem Spared.trans (spared : Spared f e t.flow) (same : g.build.phases = t.flow.build.phases) :
    Spared f e g := by
  cases spared with
  | stay same' goesOn => exact .stay (same.trans same') goesOn
  | givenUp over_ fails => exact .givenUp (same ▸ over_) fails

theorem Fed.spared (fed : Fed f e now leg t) (rests : Rests [] begun f) (on : f.leg? = some leg)
    (accepted : f.accepts e = true) (none_ : f.loading? (.process e now) = none) :
    Spared f e t.flow := by
  have over_ : ∀ p ∈ (f.clearStep.failBuild e now).build.phases, p.status.isTerminal = true :=
    fun p mem => isTerminal_of_mem_settlePhases (s := .failed) rfl mem
  cases fed with
  | dropped _ _ aborted => exact .stay rfl (.inr aborted)
  | adopted live success t turn =>
      have plain : e.stages = none := by
        rwa [loading?, if_pos ⟨on, live, accepted, success⟩] at none_
      refine .stay ?_ (.inl success)
      simp only [Turn.behind, turn.build]
      exact phases_adopt_of_plain f.clearStep plain
  | refused live fails => exact .givenUp over_ fails
  | phase =>
      obtain ⟨past, stage, at_, -⟩ := rests.on_run on
      cases at_
  | pressedOn aborted t turn => exact .stay turn.phases (.inr aborted)
  | cleaned live success plain t turn =>
      refine .stay ?_ (.inl success)
      simp only [Turn.behind, turn.phases]
      exact phases_adopt_of_plain f.clearStep plain
  | failed live fails => exact .givenUp over_ fails

theorem Rests.spared (rests : Rests [] begun f) (accepted : f.accepts e = true)
    (proper : e.Proper) (none_ : f.loading? (.process e now) = none) :
    Spared f e (f.process e now).1 := by
  obtain ⟨answered, -⟩ := rests.answered accepted proper now
  rw [none_] at answered
  rw [process_of_accepted accepted]
  generalize f.drive (some e) now = r at answered
  obtain ⟨g, effects⟩ := r
  generalize f.startedBy (some e) now = started at answered
  cases answered with
  | waits leg t eq on fed => exact fed.spared rests on accepted none_
  | passes leg t eq on fed goesOn passes lands =>
      exact (fed.spared rests on accepted none_).trans lands.phases_of_unplanned

/-- Without a plan there is no phase for an update. -/
theorem Rests.phases_of_rejected (rests : Rests [] begun f) (rejected : f.accepts e = false) :
    (f.process e now).1.build.phases = f.build.phases := by
  have ignores := ignores_of_rejected rejected now
  generalize f.process e now = r at ignores
  cases ignores with
  | same => rfl
  | updates position patch stage on =>
      obtain ⟨past, stage, at_, -⟩ := rests.on_run on
      cases at_

theorem Rests.over_of_abort {plan : List Stage} (rests : Rests plan begun f) (now : Moment) :
    ∀ p ∈ (f.abort now).1.build.phases, p.status.isTerminal = true := by
  have touched := rests.touched_abort now
  refine touched.settles ?_
  unfold abort
  split
  · assumption
  · rfl

end Unplanned

theorem Rests.offRun_of_ended {plan : List Stage} {begun : Nat} {f : Flow}
    (rests : Rests plan begun f) (ended : f.ended = true) : OffRun plan f := by
  cases rests with
  | setup on => cases on.going.symm.trans ended
  | run _ _ on => cases on.going.symm.trans ended
  | tearDown _ _ off => exact off
  | finished _ _ off => exact off

/-- A flow ends with the build that it has then. -/
theorem finished_with {f : Flow} {effects : List Effect} {b : Build}
    (told : BuildPipeline.ends effects = f.result) (finish : Effect.finish b ∈ effects) :
    f.ended = true ∧ f.build = b := by
  have ended := Course.ended_of_finish told finish
  rw [← mem_ends, told, result, if_pos ended, List.mem_singleton] at finish
  exact ⟨ended, finish.symm⟩

end Flow

namespace Course

/-- A call brought stages. -/
def Loads (entries : List Entry) : Prop :=
  ∃ n ∈ entries, n.before.loading? n.call ≠ none

/-- The phases were given up: there was an abort, or a step of set-up or tear-down failed. -/
def GaveUp (entries : List Entry) : Prop :=
  entries.any (·.aborts) = true ∨ StepFailed entries

/-- What the phases of a build are, by the calls that were made. -/
structure Shows (build : Build) (c : Course) : Prop where
  covered : Loads c.entries → c.plan.flatMap (·.members) = List.range c.flow.build.phases.length
  unplanned : ¬Loads c.entries → c.plan = []
  givenUp : ¬Loads c.entries → GaveUp c.entries →
    ∀ p ∈ c.flow.build.phases, p.status.isTerminal = true
  kept : ¬Loads c.entries → ¬GaveUp c.entries → c.flow.build.phases = build.phases

section Shows

variable {build : Build} {script : Option String} {chains : Chains} {c : Course} {call : Call}
  {entries : List Entry} {n : Entry} {b : Build}

theorem loads_concat (entries : List Entry) (n : Entry) :
    Loads (entries ++ [n]) ↔ Loads entries ∨ n.before.loading? n.call ≠ none := by
  simp only [Loads, List.mem_append, List.mem_singleton, or_and_right, exists_or, exists_eq_left]

theorem gaveUp_concat (entries : List Entry) (n : Entry) :
    GaveUp (entries ++ [n]) ↔ GaveUp entries ∨ n.aborts = true ∨
      ∃ e, n.taken? = some e ∧ (e.kind = .setupEnd ∨ e.kind = .tearDownEnd) ∧
        e.isSuccess = false := by
  simp only [GaveUp, stepFailed_concat, List.any_append, List.any_cons, List.any_nil,
    Bool.or_false, Bool.or_eq_true]
  exact or_or_or_comm

/-- What an event adds to it: a step of set-up or tear-down that failed. -/
theorem gaveUp_process (c : Course) (e : Event) (now : Moment) :
    GaveUp (c.then_ (.process e now)).entries ↔ GaveUp c.entries ∨ c.flow.accepts e = true ∧
      (e.kind = .setupEnd ∨ e.kind = .tearDownEnd) ∧ e.isSuccess = false := by
  refine (gaveUp_concat c.entries (c.entry (.process e now))).trans (or_congr_right ?_)
  constructor
  · rintro (aborts | ⟨e', taken, fails⟩)
    · cases aborts
    · obtain ⟨_, same, accepted⟩ := taken?_eq_some.1 taken
      cases same
      exact ⟨accepted, fails⟩
  · rintro ⟨accepted, fails⟩
    exact .inr ⟨e, taken?_eq_some.2 ⟨now, rfl, accepted⟩, fails⟩

/-- The plan that a call loads has a place for every phase. -/
theorem Of.covered (of : Of build script chains c) (legal : call.Legal)
    (covered : Loads c.entries →
      c.plan.flatMap (·.members) = List.range c.flow.build.phases.length)
    (loads : Loads (c.then_ call).entries) :
    (c.then_ call).plan.flatMap (·.members) =
      List.range (c.then_ call).flow.build.phases.length := by
  have matures := (of.rests.matures of.placed legal).2
  rw [plan_then_]
  cases loading : c.flow.loading? call with
  | none =>
      have loads' : Loads c.entries :=
        ((loads_concat _ _).1 loads).resolve_right fun some_ => some_ loading
      have size : (c.then_ call).flow.build.phases.length = c.flow.build.phases.length :=
        (matures.goesOn loading).size
      rw [size]
      exact covered loads'
  | some stages =>
      have size : (c.then_ call).flow.build.phases.length =
          (stages.flatten.map Flow.fresh).length :=
        (matures.loads stages loading).1.size
      rw [size]
      exact Flow.covers_consecutive stages

/-- What a call makes of the phases as long as no stages were brought. -/
theorem Of.unloaded (of : Of build script chains c) (legal : call.Legal)
    (shows_ : Shows build c) (none_ : ¬Loads (c.then_ call).entries) :
    (GaveUp (c.then_ call).entries →
        ∀ p ∈ (c.then_ call).flow.build.phases, p.status.isTerminal = true) ∧
      (¬GaveUp (c.then_ call).entries → (c.then_ call).flow.build.phases = build.phases) := by
  obtain ⟨bare, loading⟩ := not_or.1 (mt (loads_concat _ _).2 none_)
  have loading : c.flow.loading? call = none := Classical.not_not.1 loading
  have rests := of.rests
  rw [shows_.unplanned bare] at rests
  cases call with
  | start => exact legal.elim
  | abort now =>
      refine ⟨fun _ => rests.over_of_abort now, fun kept => absurd ?_ kept⟩
      exact (gaveUp_concat _ _).2 (.inr (.inl rfl))
  | process e now =>
      rw [gaveUp_process]
      cases accepted : c.flow.accepts e with
      | false =>
          have phases : (c.then_ (.process e now)).flow.build.phases = c.flow.build.phases :=
            rests.phases_of_rejected accepted
          rw [phases]
          simp only [Bool.false_eq_true, false_and, or_false]
          exact ⟨shows_.givenUp bare, shows_.kept bare⟩
      | true =>
          have step : e.kind = .setupEnd ∨ e.kind = .tearDownEnd := by
            rcases Flow.accepts_inv accepted with ⟨-, ⟨-, kind, -⟩ | ⟨-, kind, -⟩ | ⟨on, -⟩⟩
            · exact .inl kind
            · exact .inr kind
            · obtain ⟨past, stage, at_, -⟩ := rests.on_run on
              cases at_
          cases rests.spared accepted legal loading with
          | stay same goesOn =>
              have phases : (c.then_ (.process e now)).flow.build.phases = c.flow.build.phases :=
                same
              rw [phases]
              refine ⟨?_, fun kept => shows_.kept bare fun before => kept (.inl before)⟩
              rintro (before | ⟨-, -, fails⟩)
              · exact shows_.givenUp bare before
              · rw [fails] at goesOn
                exact rests.settles (goesOn.resolve_left Bool.false_ne_true)
          | givenUp over_ fails =>
              exact ⟨fun _ => over_, fun kept => absurd (.inr ⟨rfl, step, fails⟩) kept⟩

theorem shows_start (now : Moment) :
    Shows build ((idle build script chains).then_ (.start now)) := by
  have bare : ¬Loads ((idle build script chains).then_ (.start now)).entries := by
    rintro ⟨n, mem, loads⟩
    obtain rfl := List.mem_singleton.1 mem
    exact loads rfl
  have lands := ((Flow.passes_takeOff build script chains).lands now).1
  refine ⟨fun loads => absurd loads bare, fun _ => rfl, ?_, fun _ _ => lands.phases_of_unplanned⟩
  rintro - (aborts | ⟨e, mem, -⟩)
  · cases aborts
  · cases mem

theorem Of.shows (of : Of build script chains c) : Shows build c := by
  induction of with
  | start now => exact shows_start now
  | @step c of call legal ih =>
      refine ⟨of.covered legal ih.covered, fun none_ => ?_,
        fun none_ => (of.unloaded legal ih none_).1, fun none_ => (of.unloaded legal ih none_).2⟩
      obtain ⟨bare, loading⟩ := not_or.1 (mt (loads_concat _ _).2 none_)
      have loading : c.flow.loading? call = none := Classical.not_not.1 loading
      rw [plan_then_, loading]
      exact ih.unplanned bare

/-- What a build shows that has come to its end. -/
theorem Of.shown (of : Of build script chains c) (ended : c.flow.ended = true) :
    (Loads c.entries ∨ GaveUp c.entries →
        ∀ p ∈ c.flow.build.phases, p.status.isTerminal = true) ∧
      (¬(Loads c.entries ∨ GaveUp c.entries) → c.flow.build.phases = build.phases) := by
  have shows_ := of.shows
  refine ⟨fun swept => ?_, fun left => ?_⟩
  · by_cases loads : Loads c.entries
    · intro p mem
      obtain ⟨position, at_p⟩ := List.mem_iff_getElem?.1 mem
      -- the phase has a place in the plan, and all of the plan is over
      have place : position ∈ c.plan.flatMap (·.members) := by
        rw [shows_.covered loads, List.mem_range]
        exact (List.getElem?_eq_some_iff.1 at_p).1
      obtain ⟨stage, planned, member⟩ := List.mem_flatMap.1 place
      obtain ⟨number, at_⟩ := List.mem_iff_getElem?.1 planned
      exact (of.rests.offRun_of_ended ended).finished number stage at_ position member p at_p
    · exact shows_.givenUp loads (swept.resolve_left loads)
  · obtain ⟨bare, kept⟩ := not_or.1 left
    exact shows_.kept bare kept

/-- What a finished build shows of its phases. They are all over if stages were loaded, if the build
was aborted, or if a step of set-up or tear-down failed; otherwise they are the phases that the
build came with, as they were. -/
theorem Of.phases_of_finish (of : Of build script chains c) :
    ∀ past n future, c.entries = past ++ n :: future → ∀ b, Effect.finish b ∈ n.effects →
      (Loads (past ++ [n]) ∨ GaveUp (past ++ [n]) →
          ∀ p ∈ b.phases, p.status.isTerminal = true) ∧
        (¬(Loads (past ++ [n]) ∨ GaveUp (past ++ [n])) → b.phases = build.phases) := by
  induction of with
  | start now =>
      intro past n future split b finish
      rcases split_concat (show [] ++ [_] = _ from split) with
        ⟨rfl, rfl, rfl⟩ | ⟨rest, -, shorter⟩
      · obtain ⟨ended, rfl⟩ := Flow.finished_with (ends_start now) finish
        exact (Of.start now).shown ended
      · exact absurd shorter (by simp)
  | @step c of call legal ih =>
      intro past n future split b finish
      rcases split_concat split with ⟨rfl, rfl, rfl⟩ | ⟨rest, rfl, shorter⟩
      · have going : c.flow.ended = false := by
          cases ended : c.flow.ended with
          | false => rfl
          | true =>
              rw [(call_of_ended ended legal).2.2.1] at finish
              cases finish
        obtain ⟨ended, rfl⟩ := Flow.finished_with (of.ends_entry legal going) finish
        exact (of.step call legal).shown ended
      · exact ih past n rest shorter b finish

/-- A parked build that comes with a phase. -/
def submitted : Build :=
  { id := ⟨"b"⟩, createdAt := Moment.origin, phases := [{ id := "p" }] }

/-- The start of a flow that has no providers, which ends it at once. -/
def atOnce : Entry :=
  (idle submitted none {}).entry (.start Moment.origin)

theorem finish_atOnce : Effect.finish atOnce.after.build ∈ atOnce.effects := by
  have told : ends atOnce.effects = atOnce.after.result := ends_start Moment.origin
  rw [← mem_ends, told, Flow.result, if_pos (by cbv)]
  exact List.mem_singleton.2 rfl

theorem phases_of_finish_atOnce :
    Effect.finish atOnce.after.build ∈ atOnce.effects ∧ ¬(Loads [atOnce] ∨ GaveUp [atOnce]) ∧
      atOnce.after.build.phases = submitted.phases := by
  have left : ¬(Loads [atOnce] ∨ GaveUp [atOnce]) := by
    rintro (⟨n, mem, loads⟩ | aborts | ⟨e, mem, -⟩)
    · obtain rfl := List.mem_singleton.1 mem
      exact loads rfl
    · cases aborts
    · cases mem
  have of : Of submitted none {} ((idle submitted none {}).then_ (.start Moment.origin)) :=
    .start Moment.origin
  exact ⟨finish_atOnce, left, (of.phases_of_finish [] atOnce [] rfl _ finish_atOnce).2 left⟩

/-- A build can end with a phase that is still parked. -/
theorem finished_unswept :
    ∃ (build : Build) (script : Option String) (chains : Chains) (c : Course) (n : Entry)
      (b : Build), build.status = .parked ∧ Of build script chains c ∧ n ∈ c.entries ∧
        Effect.finish b ∈ n.effects ∧ b.status = .failed ∧ ∃ p ∈ b.phases, p.status = .parked := by
  have parked : atOnce.after.build.phases = [{ id := "p" }] := by cbv
  refine ⟨submitted, none, {}, _, atOnce, atOnce.after.build, rfl, .start Moment.origin,
    List.mem_singleton.2 rfl, finish_atOnce, by cbv, { id := "p" }, ?_, rfl⟩
  rw [parked]
  exact List.mem_singleton.2 rfl

end Shows

end Course
end BuildPipeline
