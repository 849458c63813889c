import BuildPipeline.Proofs.Flow.Outcome
import BuildPipeline.Proofs.Flow.Way

/-!
What a flow tells of its build, and how it ends. A turn without an event publishes every change that
it makes (`Flow.reports_drive`). A turn that takes an event publishes its changes, too, except for
the success of a phase that leaves its stage running (`Flow.Defers`): there the phase is changed and
nothing is published. `Flow.PublishedChange` sums up what the store learns while one flow becomes
another, and an aborted or ended flow was told of as it is (`Flow.PublishedChange.closing`).

A flow ends once, and nothing follows its end (`Course.Of.closes`).
-/

namespace BuildPipeline

open Time (Moment)

/-- The copy that an effect hands to the store. -/
def Effect.published? : Effect → Option Build
  | .publish build => some build
  | .dispatch .. | .finish _ => none

/-- The copies that some effects hand to the store, in order. -/
def publishes (effects : List Effect) : List Build :=
  effects.filterMap Effect.published?

section Publishes

variable {one two effects : List Effect} {b : Build}

@[simp]
theorem publishes_append : publishes (one ++ two) = publishes one ++ publishes two := by
  simp [publishes]

@[simp]
theorem publishes_nil : publishes [] = [] :=
  rfl

@[simp]
theorem publishes_publish : publishes (.publish b :: effects) = b :: publishes effects :=
  rfl

end Publishes

/-- The copies tell how a build came to be another: the last one is of the build as it came to be,
or there is none and nothing changed. -/
def Reports (b : Build) (told : List Build) (b' : Build) : Prop :=
  told.getLast? = some b' ∨ told = [] ∧ b' = b

section Reports

variable {b b' b'' : Build} {told more : List Build}

/-- A copy that was published before makes no difference. -/
theorem Reports.behind (reports : Reports b told b') : (b :: told).getLast? = some b' := by
  rcases reports with last | ⟨rfl, rfl⟩
  · rw [List.getLast?_cons, last]
    rfl
  · rfl

theorem Reports.refl (b : Build) : Reports b [] b :=
  .inr ⟨rfl, rfl⟩

theorem Reports.trans (one : Reports b told b') (two : Reports b' more b'') :
    Reports b (told ++ more) b'' := by
  rcases two with last | ⟨rfl, rfl⟩
  · exact .inl (by rw [List.getLast?_append, last, Option.some_or])
  · rwa [List.append_nil]

/-- Once a copy was published, the last one is of the build as it is. -/
theorem Reports.last (reports : Reports b more b') (last : told.getLast? = some b) :
    (told ++ more).getLast? = some b' := by
  rcases reports with latest | ⟨rfl, rfl⟩
  · rw [List.getLast?_append, latest, Option.some_or]
  · rwa [List.append_nil]

end Reports

namespace Flow

section Turns

variable {f g : Flow} {leg : Leg} {now : Moment} {t : Turn} {stage : Stage} {e : Event}

/-! ## Turns without an event -/

theorem Stepped.reports (stepped : Stepped f leg t) :
    Reports f.build (publishes t.effects) t.flow.build := by
  cases stepped <;> exact .refl _

theorem TornDown.reports (turn : TornDown f now t) :
    Reports f.build (publishes t.effects) t.flow.build := by
  cases turn with
  | sent => exact .refl _
  | complete => exact .inl rfl
  | ended => exact .refl _

theorem Checked.reports (checked : Checked f stage t) :
    Reports f.build (publishes t.effects) t.flow.build := by
  cases checked with
  | waits => exact .refl _
  | passed => exact .inl rfl
  | cut => exact .inl rfl

theorem reports_startStage (f : Flow) (stage : Stage) :
    Reports f.build (publishes (f.startStage stage).2) (f.startStage stage).1.build := by
  refine .inl ?_
  simp [startStage, snapshot]

theorem reports_turn (f : Flow) (leg : Leg) (now : Moment) :
    Reports f.build (publishes (f.turn leg none now).effects) (f.turn leg none now).flow.build := by
  unfold turn
  split
  · exact .refl _
  · cases leg with
    | setup => exact (stepped f .setup).reports
    | tearDown => exact (tornDown f now).reports
    | run =>
        simp only [runTurn]
        cases f.stages with
        | nil => exact .refl _
        | cons stage rest =>
            simp only [Turn.behind, publishes_append]
            exact (reports_startStage f stage).trans (checked _ stage).reports

/-- A flow that is driven without an event publishes every change. -/
theorem reports_drive (f : Flow) (now : Moment) :
    Reports f.build (publishes (f.drive none now).2) (f.drive none now).1.build := by
  generalize quiet : (none : Option Event) = o
  fun_induction drive f o now with
  | case1 f => exact .refl _
  | case2 f o leg rest legs goesOn g effects driven ih =>
      subst quiet
      have rest := ih rfl
      rw [driven] at rest
      rw [publishes_append]
      exact (reports_turn f leg now).trans rest
  | case3 f o leg rest legs waits =>
      subst quiet
      exact reports_turn f leg now

/-! ## Turns that take an event -/

/-- The flow takes the success of a phase, and the stage of the phase goes on. -/
structure Defers (f : Flow) (e : Event) (g : Flow) : Prop where
  accepted : f.accepts e = true
  success : e.isSuccess = true
  live : f.aborted = false
  on : f.leg? = some .run
  still : g.leg? = some .run
  queue : g.stages = f.stages

/-- What the store learns while one flow becomes another: the build as it came to be. Or it learns
nothing, because the flow was aborted and its build stays, or because of what is left `untold`. -/
inductive PublishedChange (untold : Flow → Prop) (f : Flow) (told : List Build) (g : Flow) : Prop
  | told (last : told.getLast? = some g.build)
  | mute (aborted : f.aborted = true) (quiet : told = []) (same : g.build = f.build)
  | untold (quiet : told = []) (why : untold g) (live : g.aborted = false)
      (going : g.ended = false)

/-- What is published behind is told, too. -/
theorem PublishedChange.trans {h : Flow} {told more : List Build}
    (published : PublishedChange (f.Defers e) f told g)
    (loud : f.aborted = true ∨ told ≠ []) (reports : Reports g.build more h.build) :
    PublishedChange (f.Defers e) f (told ++ more) h := by
  cases published with
  | told last => exact .told (reports.last last)
  | mute aborted quiet same =>
      subst quiet
      rcases reports with last | ⟨rfl, same'⟩
      · exact .told last
      · exact .mute aborted rfl (same'.trans same)
  | untold quiet defers =>
      rcases loud with aborted | some_
      · cases defers.live.symm.trans aborted
      · exact absurd quiet some_

theorem PublishedChange.mono {untold untold' : Flow → Prop} {told : List Build}
    (published : PublishedChange untold f told g) (more : ∀ g, untold g → untold' g) :
    PublishedChange untold' f told g := by
  cases published with
  | told last => exact .told last
  | mute aborted quiet same => exact .mute aborted quiet same
  | untold quiet why live going => exact .untold quiet (more g why) live going

theorem PublishedChange.refl (going : f.ended = false) : PublishedChange (· = f) f [] f := by
  cases aborted : f.aborted with
  | true => exact .mute aborted rfl rfl
  | false => exact .untold rfl rfl aborted going

/-- What changes nothing without course it takes nothing back. -/
theorem PublishedChange.onwards {untold : Flow → Prop} {h : Flow} {told more : List Build}
    (published : PublishedChange untold f told g) (next : PublishedChange (· = g) g more h) :
    PublishedChange untold f (told ++ more) h := by
  cases next with
  | told last => exact .told (by rw [List.getLast?_append, last, Option.some_or])
  | mute aborted quiet same =>
      subst quiet
      rw [List.append_nil]
      cases published with
      | told last => exact .told (same ▸ last)
      | mute aborted' quiet' same' => exact .mute aborted' quiet' (same.trans same')
      | untold _ _ live => cases live.symm.trans aborted
  | untold quiet same =>
      subst quiet same
      rwa [List.append_nil]

/-- The store knows a flow that is aborted or has ended as it is. -/
theorem PublishedChange.closing {untold : Flow → Prop} {past told : List Build}
    (published : PublishedChange untold f told g)
    (known : f.aborted = true ∨ f.ended = true → past.getLast? = some f.build)
    (over_ : g.aborted = true ∨ g.ended = true) :
    (past ++ told).getLast? = some g.build := by
  cases published with
  | told last => rw [List.getLast?_append, last, Option.some_or]
  | mute aborted quiet same =>
      rw [quiet, List.append_nil, same]
      exact known (.inl aborted)
  | untold _ _ live going =>
      rcases over_ with aborted | ended
      · cases live.symm.trans aborted
      · cases going.symm.trans ended

/-- A turn that takes an event and goes on has something to tell, unless the flow is aborted. -/
theorem Fed.publishedChange (fed : Fed f e now leg t) (on : f.leg? = some leg)
    (accepted : f.accepts e = true) :
    PublishedChange (f.Defers e) f (publishes t.effects) t.flow ∧
      (t.goesOn = true → f.aborted = true ∨ publishes t.effects ≠ []) := by
  have going := (accepts_inv accepted).1
  cases fed with
  | dropped _ _ aborted => exact ⟨.mute aborted rfl rfl, fun _ => .inl aborted⟩
  | adopted live success t turn =>
      exact ⟨.told turn.reports.behind, fun _ => .inr (by simp [Turn.behind, snapshot])⟩
  | refused => exact ⟨.told rfl, fun _ => .inr (by simp [Turn.again, snapshot])⟩
  | phase stage rest patch lane position p live queue phase lane_at awaited place at_p fits _
      turn =>
      cases turn with
      | failed fails =>
          exact ⟨.told (checked (f.behindFailure e patch position) stage).reports.behind,
            fun _ => .inr (by simp [Turn.behind, snapshot])⟩
      | last success =>
          have checked := checked (f.behindLast e patch position) stage
          generalize (f.behindLast e patch position).checkStage stage = t at checked
          cases checked with
          | waits =>
              exact ⟨.untold rfl ⟨accepted, success, live, on, on, rfl⟩ live going,
                fun goesOn => absurd goesOn Bool.false_ne_true⟩
          | passed => exact ⟨.told rfl, fun _ => .inr (by simp [Turn.again])⟩
          | cut => exact ⟨.told rfl, fun _ => .inr (by simp [Turn.again])⟩
      | next a success =>
          exact ⟨.untold rfl ⟨accepted, success, live, on, on, rfl⟩ live going,
            fun goesOn => absurd goesOn Bool.false_ne_true⟩
  | pressedOn aborted t turn =>
      refine ⟨?_, fun _ => .inl aborted⟩
      rcases turn.reports with last | ⟨quiet, same⟩
      · exact .told last
      · exact .mute aborted quiet same
  | cleaned live success plain t turn =>
      exact ⟨.told turn.reports.behind, fun _ => .inr (by simp [Turn.behind, snapshot])⟩
  | failed => exact ⟨.told rfl, fun _ => .inr (by simp [Turn.wait, snapshot])⟩

/-- What the store learns when a flow takes an event. -/
theorem Rests.publishedChange {plan : List Stage} {begun : Nat} (rests : Rests plan begun f)
    (accepted : f.accepts e = true) (proper : e.Proper) (now : Moment) :
    PublishedChange (f.Defers e) f (publishes (f.process e now).2) (f.process e now).1 := by
  obtain ⟨leg, rest, legs⟩ : ∃ leg rest, f.legs = leg :: rest := by
    cases legs : f.legs with
    | cons leg rest => exact ⟨leg, rest, rfl⟩
    | nil =>
        rcases accepts_inv accepted with ⟨-, ways⟩
        simp [leg?, legs] at ways
  have fed : Fed f e now leg (f.turn leg (some e) now) := rests.fed legs accepted proper
  obtain ⟨published, loud⟩ := fed.publishedChange (leg?_of_legs legs) accepted
  rw [process_of_accepted accepted, drive_of_legs now legs]
  split
  · rename_i goesOn
    rw [publishes_append]
    exact published.trans (loud goesOn) (reports_drive _ now)
  · exact published

/-- What the store learns when a flow is handed an event. -/
theorem Rests.publishedChange_process {plan : List Stage} {begun : Nat} (rests : Rests plan begun f)
    (going : f.ended = false) (proper : e.Proper) (now : Moment) :
    PublishedChange (fun g => g = f ∨ f.Defers e g) f (publishes (f.process e now).2)
      (f.process e now).1 := by
  cases accepted : f.accepts e with
  | true => exact (rests.publishedChange accepted proper now).mono fun g defers => .inr defers
  | false =>
      have ignores := ignores_of_rejected accepted now
      generalize f.process e now = behind at ignores
      cases ignores with
      | same => exact (PublishedChange.refl going).mono fun g same => .inl same
      | updates => exact .told rfl

/-- A failure changes nothing without course it. -/
theorem Rests.publishedChange_failure {plan : List Stage} {begun : Nat} (rests : Rests plan begun f)
    (going : f.ended = false) (proper : e.Proper) (fails : e.isSuccess = false) (now : Moment) :
    PublishedChange (· = f) f (publishes (f.process e now).2) (f.process e now).1 :=
  (rests.publishedChange_process going proper now).mono fun _ why =>
    why.resolve_right fun defers => by cases fails.symm.trans defers.success

variable {build : Build} {script : Option String} {chains : Chains}

/-- A flow that ends when it is started passes a verdict on its build. -/
theorem build_of_ended
    (ended : ((Course.idle build script chains).flow.start now).1.ended = true) :
    ((Course.idle build script chains).flow.start now).1.build ≠
      (Course.idle build script chains).flow.takeOff.build := by
  have told : BuildPipeline.ends ((Course.idle build script chains).flow.start now).2 =
      ((Course.idle build script chains).flow.start now).1.result :=
    ((passes_takeOff build script chains).lands now).1.ends
  have onward : Onward (Course.idle build script chains).flow.takeOff
      ((Course.idle build script chains).flow.start now).2
      ((Course.idle build script chains).flow.start now).1 := onward_drive _ now
  generalize (Course.idle build script chains).flow.start now = behind at *
  cases onward with
  | goes _ endless =>
      rw [endless, result, if_pos ended] at told
      cases told
  | closes h plain _ _ _ status =>
      intro same
      have sound : ¬(h.aborted = true ∨ h.build.status = .failed) := by
        rw [plain.aborted, plain.status]
        simp [takeOff, Course.idle]
      rw [same, verdict, if_neg sound] at status
      split at status <;> cases status

/-- What the store learns of a flow that is started. The start itself is not told. -/
theorem publishedChange_start (build : Build) (script : Option String) (chains : Chains)
    (now : Moment) :
    PublishedChange (fun g => g.build = (Course.idle build script chains).flow.takeOff.build)
      (Course.idle build script chains).flow.takeOff
      (publishes ((Course.idle build script chains).flow.start now).2)
      ((Course.idle build script chains).flow.start now).1 := by
  rcases reports_drive (Course.idle build script chains).flow.takeOff now with
    last | ⟨quiet, same⟩
  · exact .told last
  · refine .untold quiet same (steady_drive _ none now).aborted ?_
    cases ended : ((Course.idle build script chains).flow.start now).1.ended with
    | false => rfl
    | true => exact absurd same (build_of_ended ended)

end Turns

/-! ## The end -/

/-- An end among some effects is the last of them. -/
def Closes (effects : List Effect) : Prop :=
  ends effects.dropLast = []

section Closes

variable {plan : List Stage} {begun : Nat} {f g : Flow} {e : Event} {now : Moment} {leg : Leg}
  {t : Turn} {one two effects : List Effect} {started : List Stage} {call : Call}

theorem closes_of_endless (endless : ends effects = []) : Closes effects := by
  have sub : (ends effects.dropLast).Sublist (ends effects) :=
    (List.dropLast_sublist effects).filterMap _
  rw [endless] at sub
  exact List.sublist_nil.1 sub

theorem Closes.behind (endless : ends one = []) (closes : Closes two) : Closes (one ++ two) := by
  unfold Closes
  cases two with
  | nil =>
      rw [List.append_nil]
      exact closes_of_endless endless
  | cons x two =>
      rw [List.dropLast_append_of_ne_nil (List.cons_ne_nil x two), ends_append, endless]
      exact closes

theorem TornDown.closes (turn : TornDown f now t) : Closes t.effects := by
  cases turn <;> rfl

theorem Fed.closes (fed : Fed f e now leg t) (waits : t.goesOn = false) : Closes t.effects := by
  cases fed with
  | dropped => cases waits
  | adopted live success t turn => cases turn <;> rfl
  | refused => cases waits
  | phase stage rest patch lane position p _ _ _ _ _ _ _ _ t turn =>
      exact closes_of_endless (turn.of_waits waits).2
  | pressedOn aborted t turn => exact turn.closes
  | cleaned live success plain t turn =>
      have silent : BuildPipeline.ends [(f.clearStep.adopt e).snapshot] = [] := rfl
      exact .behind silent turn.closes
  | failed => rfl

theorem Lands.closes (lands : Lands plan begun f effects started g) : Closes effects := by
  cases lands with
  | step _ _ _ between => exact .behind between.endless rfl
  | stage s a between live on at_ some_ head =>
      rcases on.startStage live at_ (between.steady.chains ▸ head) with ⟨fan, -⟩
      refine .behind between.endless (closes_of_endless ?_)
      rw [effects_startStage, ends_append, fan.endless]
      rfl
  | finished build effects between on silent endless =>
      exact .behind between.endless (.behind endless rfl)

theorem Called.closes (called : Called plan begun f call effects started g) : Closes effects := by
  cases called with
  | idle _ _ _ _ endless => exact closes_of_endless endless
  | answered e now _ _ answered =>
      cases answered with
      | waits leg t eq on fed waits => exact fed.closes waits
      | passes leg t eq on fed goesOn _ lands =>
          exact .behind (fed.passing goesOn).2.1 lands.closes

end Closes

end Flow

namespace Course

/-- All that the calls asked for, in order. -/
def effects (c : Course) : List Effect :=
  c.entries.flatMap (·.effects)

section Closing

variable {build : Build} {script : Option String} {chains : Chains} {c : Course} {call : Call}

theorem effects_then_ (c : Course) (call : Call) :
    (c.then_ call).effects = c.effects ++ (c.entry call).effects := by
  simp [effects, then_]

theorem Of.endless (of : Of build script chains c) (going : c.flow.ended = false) :
    BuildPipeline.ends c.effects = [] := by
  induction of with
  | start now =>
      have told : BuildPipeline.ends ((idle build script chains).entry (.start now)).effects = [] :=
        (ends_start now).trans (Flow.result_of_going going)
      rw [show { flow := { build, script, chains } } = idle build script chains from rfl,
        effects_then_, ends_append, told]
      rfl
  | @step c of call legal ih =>
      have going' : c.flow.ended = false := by
        cases ended : c.flow.ended with
        | false => rfl
        | true => cases (call_of_ended ended legal).1.symm.trans going
      rw [effects_then_, ends_append, ih going', of.ends_entry legal going',
        Flow.result_of_going going]
      rfl

/-- A call that ends a flow tells the build that it ends with, and no call has told one before. -/
theorem Of.ends_then_ (of : Of build script chains c) (legal : call.Legal)
    (going : c.flow.ended = false) :
    BuildPipeline.ends (c.then_ call).effects = (c.then_ call).flow.result := by
  rw [effects_then_, ends_append, of.endless going, of.ends_entry legal going]
  rfl

/-- A flow ends once, and it asks for nothing behind its end. -/
theorem Of.closes (of : Of build script chains c) : Flow.Closes c.effects := by
  induction of with
  | start now =>
      rw [effects_then_]
      exact .behind rfl ((Flow.passes_takeOff build script chains).lands now).1.closes
  | @step c of call legal ih =>
      rw [effects_then_]
      cases ended : c.flow.ended with
      | false => exact .behind (of.endless ended) (of.rests.called legal).1.closes
      | true =>
          rw [(call_of_ended ended legal).2.2.1, List.append_nil]
          exact ih

end Closing
end Course
end BuildPipeline
