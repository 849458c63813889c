import BuildPipeline.Proofs.Flow.Finality

/-!
An abort that comes before the start. The flow keeps the mark of the abort, so it commands nothing
but tear-down, and whatever follows leaves the status of its build alone. But the start puts the
build in flight without a look at that mark, and nothing cancels it again: the build is in flight
from then on, and the flow ends with it so (`Course.forestalled`, `Course.uncanceled`).
-/

namespace BuildPipeline

open Time (Moment)

namespace Flow

section Aborted

variable {f : Flow} {torn : Nat} {now : Moment}

/-- An aborted flow ends with the build as it is. -/
theorem ends_tornDown {t : Turn} (turn : TornDown f now t) (aborted : f.aborted = true) :
    ∀ b ∈ ends t.effects, b = f.build := by
  intro b mem
  cases turn with
  | sent => cases mem
  | complete _ live =>
      rw [aborted] at live
      cases live
  | ended => exact List.mem_singleton.1 mem

theorem ends_tearDown_of_aborted (aborted : f.aborted = true) (o : Option Event) :
    ∀ b ∈ ends (f.turn .tearDown o now).effects, b = f.build := by
  rw [turn_tearDown]
  cases o with
  | none => exact ends_tornDown (tornDown f now) aborted
  | some e =>
      have idle : f.clearStep.takeStep e now = (f.clearStep, [], true) := if_pos aborted
      simp only [tearDownTurn, idle]
      exact ends_tornDown (f := f.clearStep) (tornDown f.clearStep now) aborted

theorem ends_drive_of_aborted (stands : Stands f torn) (aborted : f.aborted = true)
    (o : Option Event) (now : Moment) : ∀ b ∈ ends (f.drive o now).2, b = f.build := by
  fun_induction drive f o now with
  | case1 => exact fun b mem => absurd mem List.not_mem_nil
  | case2 f o leg rest legs goesOn g effects driven ih =>
      have ne : leg ≠ .tearDown := by
        rintro rfl
        have way := stands.legs_eq (leg?_of_legs legs)
        rw [(abortedReply_tearDown aborted way o).1] at goesOn
        cases goesOn
      rw [turn_of_aborted aborted ne] at driven ih ⊢
      have next := ih (stands.leaveLeg legs ne) aborted
      rwa [driven] at next
  | case3 f o leg rest legs waits =>
      by_cases last : leg = .tearDown
      · subst last
        exact ends_tearDown_of_aborted aborted o
      · rw [turn_of_aborted aborted last] at waits
        exact absurd rfl waits

/-- An event that is not accepted sends nothing and does not end the flow. -/
theorem Ignores.inert {r : Flow × List Effect} (ignores : Ignores f r) :
    r.1.aborted = f.aborted ∧ r.1.build.status = f.build.status ∧ commands r.2 = [] ∧
      ends r.2 = [] := by
  cases ignores <;> exact ⟨rfl, rfl, rfl, rfl⟩

end Aborted

end Flow

namespace Course

/-- The course of a flow that was aborted before it was started. -/
def forestall (build : Build) (script : Option String) (chains : Chains) (first second : Moment) :
    Course :=
  ((idle build script chains).then_ (.abort first)).then_ (.start second)

/-- What holds of a flow from its start on, if it was aborted before. -/
structure Revived (c : Course) : Prop where
  aborted : c.flow.aborted = true
  stands : ∃ torn, c.flow.Stands torn
  status : c.flow.build.status = .inFlight
  ends : ∀ n ∈ c.entries, ∀ b ∈ BuildPipeline.ends n.effects, b.status = .inFlight
  kinds : ∀ m ∈ c.commands, m.kind = .tearDown

section Revived

variable {build : Build} {script : Option String} {chains : Chains} {c d : Course} {call : Call}
  {future : List Entry} {first second : Moment}

theorem Revived.silent (revived : Revived c) (stands : ∃ torn, (c.then_ call).flow.Stands torn)
    (aborted : (c.then_ call).flow.aborted = c.flow.aborted)
    (status : (c.then_ call).flow.build.status = c.flow.build.status)
    (ends : ∀ b ∈ BuildPipeline.ends (c.flow.call call).2, b.status = .inFlight)
    (kinds : ∀ m ∈ BuildPipeline.commands (c.flow.call call).2, m.kind = .tearDown) :
    Revived (c.then_ call) := by
  refine ⟨aborted.trans revived.aborted, stands, status.trans revived.status, ?_, ?_⟩
  · intro n mem
    rcases List.mem_append.1 mem with old | new
    · exact revived.ends n old
    · rw [List.mem_singleton.1 new]
      exact ends
  · intro m mem
    rw [commands_then_, List.mem_append] at mem
    exact mem.elim (revived.kinds m) (kinds m)

theorem Revived.then_ (revived : Revived c) (later : call.Later) : Revived (c.then_ call) := by
  obtain ⟨torn, stands⟩ := revived.stands
  have stands' : ∃ torn, (c.then_ call).flow.Stands torn := ⟨_, stands.call call⟩
  cases call with
  | start => exact later.elim
  | abort now =>
      have same : c.flow.abort now = (c.flow, []) := Flow.abort_of_aborted revived.aborted now
      refine revived.silent stands' (congrArg (·.1.aborted) same)
        (congrArg (·.1.build.status) same) ?_ ?_
      · exact fun b mem => absurd mem List.not_mem_nil
      · exact fun m mem => absurd mem List.not_mem_nil
  | process e now =>
      cases accepted : c.flow.accepts e with
      | true =>
          have driven : c.flow.call (.process e now) = c.flow.drive (some e) now :=
            Flow.process_of_accepted accepted
          have going : c.flow.legs ≠ [] := by
            obtain ⟨-, on⟩ := Flow.accepts_inv accepted
            intro none_
            simp [Flow.leg?, none_] at on
          have reply := Flow.abortedReply_drive stands revived.aborted going (some e) now
          have ends := Flow.ends_drive_of_aborted stands revived.aborted (some e) now
          refine revived.silent stands' ?_ ?_ ?_ ?_
          · exact (Flow.steady_process c.flow e now).aborted
          · change (c.flow.call (.process e now)).1.build.status = _
            rw [driven, reply.build]
          · rw [driven]
            exact fun b mem => ends b mem ▸ revived.status
          · rw [driven]
            exact reply.kinds
      | false =>
          obtain ⟨aborted, status, silent, endless⟩ :=
            (Flow.ignores_of_rejected accepted now).inert
          refine revived.silent stands' aborted status ?_ ?_
          · intro b mem
            change b ∈ BuildPipeline.ends (c.flow.process e now).2 at mem
            rw [endless] at mem
            exact absurd mem List.not_mem_nil
          · intro m mem
            change m ∈ BuildPipeline.commands (c.flow.process e now).2 at mem
            rw [silent] at mem
            exact absurd mem List.not_mem_nil

theorem revived_forestall (build : Build) (script : Option String) (chains : Chains)
    (first second : Moment) : Revived (forestall build script chains first second) := by
  let f := ((idle build script chains).then_ (.abort first)).flow.takeOff
  have aborted : f.aborted = true := rfl
  have stands : f.Stands 0 := .setup rfl rfl
  have reply := Flow.abortedReply_drive stands aborted (List.cons_ne_nil _ _) none second
  have ends := Flow.ends_drive_of_aborted stands aborted none second
  refine ⟨(Flow.steady_drive f none second).aborted.trans aborted,
    ⟨_, stands.drive none second⟩, ?_, ?_, ?_⟩
  · exact congrArg Build.status reply.build
  · intro n mem b over_
    rcases List.mem_append.1 mem with early | start
    · rw [List.mem_singleton.1 early] at over_
      exact absurd over_ List.not_mem_nil
    · rw [List.mem_singleton.1 start] at over_
      exact congrArg Build.status (ends b over_)
  · intro m mem
    rw [forestall, commands_then_, commands_then_, List.mem_append] at mem
    exact mem.elim (fun early => absurd early List.not_mem_nil) (reply.kinds m)

/-- An abort that comes before the start keeps set-up and run from being commanded, but its mark on
the build is lost: the build is canceled up to the start, and from then on in flight. -/
theorem forestalled (build : Build) (script : Option String) (chains : Chains)
    (first second : Moment) :
    ((idle build script chains).then_ (.abort first)).flow.build.status = .canceled ∧
      ∀ future d, Continues (forestall build script chains first second) future d →
        d.flow.build.status = .inFlight ∧
          (∀ n ∈ d.entries, ∀ b ∈ BuildPipeline.ends n.effects, b.status = .inFlight) ∧
          ∀ m ∈ d.commands, m.kind = .tearDown := by
  refine ⟨rfl, fun future d continues => ?_⟩
  have revived : Revived d := by
    induction continues with
    | refl => exact revived_forestall build script chains first second
    | step _ call later revived => exact revived.then_ later
  exact ⟨revived.status, revived.ends, revived.kinds⟩

/-- A build with one provider of tear-down that was aborted before its start, when tear-down has
failed. -/
def tornDownEarly : Course :=
  let chains : Chains := { shortChains with tearDown := [⟨.tearDown, 0, 0⟩] }
  let build : Build := { id := ⟨"b"⟩, createdAt := Moment.origin }
  (forestall build none chains Moment.origin Moment.origin).then_ (failure .tearDownEnd ⟨1⟩)

theorem forestalled_tornDownEarly :
    tornDownEarly.flow.ended = true ∧ tornDownEarly.flow.build.status = .inFlight ∧
      tornDownEarly.commands.map (·.kind) = [.tearDown] := by
  have ended : tornDownEarly.flow.ended = true := by cbv
  have kinds : tornDownEarly.commands.map (·.kind) = [.tearDown] := by cbv
  have later : (failure .tearDownEnd ⟨1⟩).Later := trivial
  have all := (forestalled { id := ⟨"b"⟩, createdAt := Moment.origin } none
    { shortChains with tearDown := [⟨.tearDown, 0, 0⟩] } Moment.origin Moment.origin).2
  exact ⟨ended, (all _ tornDownEarly (.step .refl _ later)).1, kinds⟩

/-- Without providers, a build that was aborted before its start ends with the start, in flight. -/
theorem uncanceled :
    ∃ (build : Build) (now : Moment) (b : Build),
      ((idle build none {}).then_ (.abort now)).flow.build.status = .canceled ∧
        (forestall build none {} now now).flow.build.status ≠ .canceled ∧
        BuildPipeline.ends ((forestall build none {} now now).entries.flatMap (·.effects)) = [b] ∧
        b.status ≠ .canceled := by
  let submitted : Build := { id := ⟨"b"⟩, createdAt := Moment.origin }
  let canceled := submitted.markAborted Moment.origin
  have status : (forestall submitted none {} Moment.origin Moment.origin).flow.build.status =
      .inFlight := by cbv
  refine ⟨submitted, Moment.origin, { canceled with status := .inFlight }, rfl, ?_, by cbv, ?_⟩
  · rw [status]
    decide
  · have inFlight : ({ canceled with status := .inFlight } : Build).status = .inFlight := rfl
    rw [inFlight]
    decide

end Revived

end Course
end BuildPipeline
