import BuildPipeline.Proofs.Flow.Calls

/-!
What becomes of a build while its flow is driven. Between two events a turn says nothing of the
build as a whole, and unless there are no providers it makes no phase done (`Flow.Plain`); only the
end of tear-down passes a verdict (`Flow.Onward`, `onward_drive`). What an event makes of the build,
before the flow goes on, is told by `Flow.Takes`: a failed step fails the build, a failure leaves
its message, and a phase is done when its last provider reports success.
-/

namespace BuildPipeline

open Time (Moment)

/-- The phase at a position of the build is done. -/
def Build.DoneAt (b : Build) (position : Nat) : Prop :=
  ∃ p, b.phases[position]? = some p ∧ p.status = .done

/-- The message of a failure, if it carries one. -/
def Event.told? (e : Event) : Option String :=
  if e.isSuccess then none else e.statusMessage

theorem mem_ends {b : Build} {effects : List Effect} :
    b ∈ ends effects ↔ Effect.finish b ∈ effects := by
  simp only [ends, List.mem_filterMap]
  constructor
  · rintro ⟨effect, mem, ended⟩
    cases effect with
    | finish b' =>
        cases ended
        exact mem
    | dispatch => cases ended
    | publish => cases ended
  · exact fun mem => ⟨_, mem, rfl⟩

namespace Flow

/-- The status with which the build ends: one that is aborted or failed stays so, any other is done
when every phase is done. -/
def verdict (f : Flow) : Status :=
  if f.aborted = true ∨ f.build.status = .failed then f.build.status
  else if f.build.phases.all (·.status == .done) then .done
  else .failed

/-- Nothing is said of the build as a whole, and unless there are no providers no phase becomes
done. -/
structure Plain (f g : Flow) : Prop where
  status : g.build.status = f.build.status
  message : g.build.statusMessage = f.build.statusMessage
  aborted : g.aborted = f.aborted
  chains : g.chains = f.chains
  done : f.chains.count .runPhase ≠ 0 → ∀ position, g.build.DoneAt position →
    f.build.DoneAt position

/-- The flow goes on to wait, or passes its verdict and ends. -/
inductive Onward (f : Flow) (effects : List Effect) (g : Flow) : Prop
  | goes (plain : Plain f g) (endless : ends effects = [])
  | closes (h : Flow) (plain : Plain f h) (last : ends effects = [g.build])
      (message : g.build.statusMessage = h.build.statusMessage)
      (phases : g.build.phases = h.build.phases) (status : g.build.status = h.verdict)

section Plain

variable {f g h : Flow} {one two effects : List Effect} {leg : Leg} {now : Moment}

theorem Plain.of_build (build : g.build = f.build) (aborted : g.aborted = f.aborted)
    (chains : g.chains = f.chains) : Plain f g :=
  ⟨by rw [build], by rw [build], aborted, chains, fun _ _ done => build ▸ done⟩

theorem Plain.refl (f : Flow) : Plain f f :=
  .of_build rfl rfl rfl

theorem Plain.trans (first : Plain f g) (second : Plain g h) : Plain f h :=
  ⟨second.status.trans first.status, second.message.trans first.message,
    second.aborted.trans first.aborted, second.chains.trans first.chains,
    fun some_ position done =>
      first.done some_ position (second.done (first.chains.symm ▸ some_) position done)⟩

theorem Onward.then_ (first : Onward f one g) (endless : ends one = [])
    (then_ : Onward g two h) : Onward f (one ++ two) h := by
  have ends_two : ends (one ++ two) = ends two := by
    rw [ends_append, endless, List.nil_append]
  cases first with
  | closes _ _ last =>
      rw [endless] at last
      cases last
  | goes plain =>
      cases then_ with
      | goes plain' endless' => exact .goes (plain.trans plain') (ends_two.trans endless')
      | closes g' plain' last message phases status =>
          exact .closes g' (plain.trans plain') (ends_two.trans last) message phases status

/-! ## Parts of a turn -/

theorem doneAt_of_modify {b : Build} {i position : Nat} {change : Phase → Phase}
    (kept : ∀ p : Phase, (change p).status = .done → p.status = .done)
    (done : ({ b with phases := b.phases.modify i change } : Build).DoneAt position) :
    b.DoneAt position := by
  rcases done with ⟨p, at_, done⟩
  change (b.phases.modify i change)[position]? = some p at at_
  rw [List.getElem?_modify] at at_
  rcases Option.map_eq_some_iff.1 at_ with ⟨q, at_q, rfl⟩
  refine ⟨q, at_q, ?_⟩
  split at done
  · exact kept q done
  · exact done

theorem doneAt_of_settle {b : Build} {s : Status} {position : Nat} (ne : s ≠ .done)
    (done : (b.settlePhases s).DoneAt position) : b.DoneAt position := by
  rcases done with ⟨p, at_, done⟩
  obtain ⟨q, at_q, rfl⟩ : ∃ q, b.phases[position]? = some q ∧
      (if q.status.isCancellable then { q with status := s } else q) = p := by
    simpa [Build.settlePhases] using at_
  refine ⟨q, at_q, ?_⟩
  split at done
  · exact absurd done ne
  · exact done

theorem plain_modifyPhase (f : Flow) (position : Nat) {change : Phase → Phase}
    (kept : ∀ p : Phase, (change p).status = .done → p.status = .done) :
    Plain f (f.modifyPhase position change) :=
  ⟨rfl, rfl, rfl, rfl, fun _ _ done => doneAt_of_modify kept done⟩

theorem plain_commandPhase (f : Flow) (index position : Nat) :
    Plain f (f.commandPhase index position).1 ∧ ends (f.commandPhase index position).2 = [] := by
  unfold commandPhase
  split
  · exact ⟨.of_build rfl rfl rfl, rfl⟩
  · exact ⟨.refl f, rfl⟩

theorem plain_startPhase (f : Flow) (index position : Nat) :
    Plain f (f.startPhase index position).1 ∧ ends (f.startPhase index position).2 = [] := by
  have begun : Plain f (f.modifyPhase position (·.beginRun index)) :=
    plain_modifyPhase f position nofun
  unfold startPhase
  split
  · split
    · rename_i none_
      exact ⟨⟨rfl, rfl, rfl, rfl, fun some_ => absurd none_ some_⟩, rfl⟩
    · rcases plain_commandPhase (f.modifyPhase position (·.beginRun index)) index position with
        ⟨plain, endless⟩
      exact ⟨begun.trans plain, endless⟩
  · exact ⟨.refl f, rfl⟩

theorem plain_startPhases (f : Flow) (index : Nat) (positions : List Nat) :
    Plain f (f.startPhases index positions).1 ∧ ends (f.startPhases index positions).2 = [] := by
  induction positions generalizing f index with
  | nil => exact ⟨.refl f, rfl⟩
  | cons position positions ih =>
      rcases plain_startPhase f index position with ⟨first, endless⟩
      rcases ih (f.startPhase index position).1 (index + 1) with ⟨rest, endless'⟩
      refine ⟨first.trans rest, ?_⟩
      simp only [startPhases, ends_append, endless, endless', List.append_nil]

theorem plain_startStage (f : Flow) (stage : Stage) :
    Plain f (f.startStage stage).1 ∧ ends (f.startStage stage).2 = [] := by
  rcases plain_startPhases (f.armed stage) 0 stage.members with ⟨plain, endless⟩
  rw [startStage_eq]
  have armed : Plain f (f.armed stage) := .of_build rfl rfl rfl
  refine ⟨armed.trans plain, ?_⟩
  rw [fanOut, ends_append, endless]
  rfl

theorem plain_checkStage (f : Flow) (stage : Stage) :
    Plain f (f.checkStage stage).flow ∧ ends (f.checkStage stage).effects = [] := by
  have checked := checked f stage
  generalize f.checkStage stage = t at checked
  cases checked with
  | waits => exact ⟨.refl f, rfl⟩
  | passed => exact ⟨.of_build rfl rfl rfl, rfl⟩
  | cut =>
      refine ⟨⟨rfl, rfl, rfl, rfl, fun _ position done => ?_⟩, rfl⟩
      rcases done with ⟨p, at_, done⟩
      rw [Turn.again, getElem?_canceledAt] at at_
      rcases Option.map_eq_some_iff.1 at_ with ⟨q, at_q, rfl⟩
      refine ⟨q, at_q, ?_⟩
      split at done
      · cases done
      · exact done

theorem plain_commandStep (f : Flow) (leg : Leg) :
    Plain f (f.commandStep leg).flow ∧ ends (f.commandStep leg).effects = [] := by
  have stepped := stepped f leg
  generalize f.commandStep leg = t at stepped
  cases stepped with
  | sent => exact ⟨.of_build rfl rfl rfl, rfl⟩
  | left => exact ⟨.of_build rfl rfl rfl, rfl⟩

/-! ## Turns without an event -/

theorem plain_turn (ne : leg ≠ .tearDown) :
    Plain f (f.turn leg none now).flow ∧ ends (f.turn leg none now).effects = [] := by
  unfold turn
  split
  · exact ⟨.of_build rfl rfl rfl, rfl⟩
  · cases leg with
    | setup => exact plain_commandStep f .setup
    | tearDown => exact absurd rfl ne
    | run =>
        simp only [runTurn]
        split
        · exact ⟨.of_build rfl rfl rfl, rfl⟩
        · rename_i stage _ _ _
          rcases plain_startStage f stage with ⟨started, endless⟩
          rcases plain_checkStage (f.startStage stage).1 stage with ⟨checked, endless'⟩
          refine ⟨started.trans checked, ?_⟩
          simp only [Turn.behind, ends_append, endless, endless', List.append_nil]
        · contradiction

theorem onward_conclude (f : Flow) (now : Moment) :
    Onward f (f.conclude now).effects (f.conclude now).flow := by
  unfold conclude
  split
  · rename_i sound
    refine .closes f (.refl f) rfl rfl rfl ?_
    have open_ : ¬(f.aborted = true ∨ f.build.status = .failed) := by
      rw [not_or]
      exact ⟨by simpa using sound.2, sound.1⟩
    rw [verdict, if_neg open_]
    rfl
  · rename_i unsound
    refine .closes f (.refl f) rfl rfl rfl ?_
    have closed : f.aborted = true ∨ f.build.status = .failed := by
      by_cases failed : f.build.status = .failed
      · exact .inr failed
      · exact .inl (by simpa [failed] using unsound)
    rw [verdict, if_pos closed]
    rfl

/-- Tear-down waits for its next provider or passes its verdict. -/
theorem onward_goOnTearDown (f : Flow) (now : Moment) :
    Onward f (f.goOnTearDown now).effects (f.goOnTearDown now).flow ∧
      (f.goOnTearDown now).goesOn = false := by
  constructor
  · unfold goOnTearDown
    split
    · rcases plain_commandStep f .tearDown with ⟨plain, endless⟩
      exact .goes plain endless
    · exact onward_conclude f now
  · have turn := tornDown f now
    generalize f.goOnTearDown now = t at turn
    cases turn <;> rfl

theorem onward_drive (f : Flow) (now : Moment) :
    Onward f (f.drive none now).2 (f.drive none now).1 := by
  generalize quiet : (none : Option Event) = o
  fun_induction drive f o now with
  | case1 f => exact .goes (.refl f) rfl
  | case2 f o leg rest legs goesOn g effects driven ih =>
      subst quiet
      have rest := ih rfl
      rw [driven] at rest
      have ne : leg ≠ .tearDown := by
        rintro rfl
        rw [turn_tearDown] at goesOn
        exact absurd ((onward_goOnTearDown f now).2.symm.trans goesOn) Bool.false_ne_true
      rcases plain_turn ne (f := f) with ⟨plain, endless⟩
      exact (Onward.goes plain endless).then_ endless rest
  | case3 f o leg rest legs waits =>
      subst quiet
      by_cases last : leg = .tearDown
      · subst last
        rw [turn_tearDown]
        exact (onward_goOnTearDown f now).1
      · rcases plain_turn last (f := f) with ⟨plain, endless⟩
        exact .goes plain endless

/-- Unless there are no providers, no phase becomes done on the way. -/
theorem Onward.doneAt {position : Nat} (onward : Onward f effects g)
    (some_ : f.chains.count .runPhase ≠ 0) (done : g.build.DoneAt position) :
    f.build.DoneAt position := by
  cases onward with
  | goes plain => exact plain.done some_ position done
  | closes h plain _ _ phases =>
      rcases done with ⟨p, at_, done⟩
      exact plain.done some_ position ⟨p, phases ▸ at_, done⟩

end Plain

/-! ## Events -/

/-- The event reports the success of the last provider of the phase at a position of the build. -/
def Completes (f : Flow) (e : Event) (position : Nat) : Prop :=
  e.isSuccess = true ∧ f.leg? = some .run ∧ f.aborted = false ∧
    ∃ patch stage rest, e.phase = some patch ∧ f.stages = stage :: rest ∧
      stage.position? patch.index = some position ∧
      f.chains.count .runPhase ≤ f.sent patch.index

/-- What an event that is accepted makes of a flow, before the flow goes on. -/
structure Takes (f : Flow) (e : Event) (now : Moment) (h : Flow) : Prop where
  aborted : h.aborted = f.aborted
  chains : h.chains = f.chains
  status : h.build.status =
    if f.aborted = false ∧ e.kind ≠ .phaseEnd ∧ e.isSuccess = false then .failed
    else f.build.status
  message : h.build.statusMessage =
    if f.aborted then f.build.statusMessage else e.told? <|> f.build.statusMessage
  done : f.chains.count .runPhase ≠ 0 → ∀ position, h.build.DoneAt position →
    f.build.DoneAt position ∧ f.loading? (.process e now) = none ∨ f.Completes e position

/-- A turn takes an event, and then goes on or passes its verdict. A turn that is not the last one
passes none. -/
def Heeds (f : Flow) (e : Event) (now : Moment) (t : Turn) : Prop :=
  ∃ h, Takes f e now h ∧ Onward h t.effects t.flow ∧ (t.goesOn = true → ends t.effects = [])

section Takes

variable {plan : List Stage} {begun : Nat} {f g h : Flow} {effects : List Effect} {leg : Leg}
  {e : Event} {now : Moment}

/-- An aborted flow makes nothing of an event. -/
theorem takes_of_aborted (aborted : f.aborted = true) (build : h.build = f.build)
    (same : h.aborted = f.aborted) (chains : h.chains = f.chains) : Takes f e now h := by
  refine ⟨same, chains, ?_, ?_, fun _ position done => .inl ⟨build ▸ done, ?_⟩⟩
  · rw [build, if_neg (by simp [aborted])]
  · rw [build, if_pos aborted]
  · simp [loading?, aborted]

theorem doneAt_failBuild {position : Nat} (done : (f.failBuild e now).build.DoneAt position) :
    f.build.DoneAt position :=
  doneAt_of_settle (s := .failed) (by decide) done

theorem doneAt_abort {position : Nat} (done : (f.abort now).1.build.DoneAt position) :
    f.build.DoneAt position := by
  unfold abort at done
  split at done
  · exact done
  · exact doneAt_of_settle (s := .canceled) (by decide) done

/-- A failed step fails the build. -/
theorem takes_failBuild (live : f.aborted = false) (step : e.kind ≠ .phaseEnd)
    (fails : e.isSuccess = false) : Takes f e now (f.clearStep.failBuild e now) := by
  refine ⟨rfl, rfl, ?_, ?_, fun _ position done => .inl ⟨doneAt_failBuild done, ?_⟩⟩
  · rw [if_pos ⟨live, step, fails⟩]
    rfl
  · rw [if_neg (by simp [live]), Event.told?, if_neg (by simp [fails])]
    rfl
  · simp [loading?, fails]

/-- A successful step leaves the build as a whole as it is. -/
theorem takes_adopt (live : f.aborted = false) (success : e.isSuccess = true) :
    Takes f e now (f.clearStep.adopt e) := by
  have frame : (f.clearStep.adopt e).aborted = f.aborted ∧
      (f.clearStep.adopt e).chains = f.chains ∧
      (f.clearStep.adopt e).build.status = f.build.status ∧
      (f.clearStep.adopt e).build.statusMessage = f.build.statusMessage := by
    unfold adopt
    cases e.stages <;> exact ⟨rfl, rfl, rfl, rfl⟩
  rcases frame with ⟨aborted, chains, status, message⟩
  refine ⟨aborted, chains, ?_, ?_, fun _ position done => .inl ?_⟩
  · rw [if_neg (by simp [success]), status]
  · rw [if_neg (by simp [live]), Event.told?, if_pos success, message]
    rfl
  · cases stages : e.stages with
    | none =>
        rw [adopt_of_plain _ stages] at done
        exact ⟨done, by simp only [loading?, stages, ite_self]⟩
    | some loaded =>
        rcases done with ⟨p, at_, done⟩
        simp only [adopt, stages, loadStages?, loadStages] at at_
        rcases List.mem_map.1 (List.mem_of_getElem? at_) with ⟨q, -, rfl⟩
        cases done

/-- What a reply to a phase makes of the build. -/
theorem takes_replied {index position minted : Nat} {phase : Phase → Phase} {change : Lane → Lane}
    (live : f.aborted = false) (kind : e.kind = .phaseEnd) (on : f.leg? = some .run)
    (kept : f.Completes e position ∨ ∀ p : Phase, (phase p).status = .done → p.status = .done) :
    Takes f e now (f.replied e index position phase change minted) := by
  refine ⟨rfl, rfl, ?_, ?_, fun _ other done => ?_⟩
  · rw [if_neg (by simp [kind])]
    rfl
  · rw [if_neg (by simp [live]), Event.told?]
    simp only [replied]
    split <;> rfl
  · have none_ : f.loading? (.process e now) = none := by simp [loading?, on]
    rcases kept with completes | kept
    · by_cases here : other = position
      · exact .inr (here ▸ completes)
      · rcases done with ⟨p, at_, done⟩
        simp only [replied] at at_
        rw [List.getElem?_modify_ne _ _ (Ne.symm here)] at at_
        exact .inl ⟨⟨p, at_, done⟩, none_⟩
    · exact .inl ⟨doneAt_of_modify kept done, none_⟩

/-- An aborted flow drops the event and leaves its leg. -/
theorem heeds_of_aborted (aborted : f.aborted = true) (ne : leg ≠ .tearDown) :
    Heeds f e now (f.turn leg (some e) now) := by
  rw [turn_of_aborted aborted ne]
  exact ⟨f, takes_of_aborted aborted rfl rfl rfl, .goes (.of_build rfl rfl rfl) rfl, fun _ => rfl⟩

theorem heeds_setup (kind : e.kind ≠ .phaseEnd) : Heeds f e now (f.turn .setup (some e) now) := by
  cases aborted : f.aborted with
  | true => exact heeds_of_aborted aborted (by decide)
  | false =>
      have live : f.clearStep.aborted = false := aborted
      rw [turn_of_live aborted]
      simp only [setupTurn, takeStep, live]
      cases success : e.isSuccess with
      | true =>
          rcases plain_commandStep (f.clearStep.adopt e) .setup with ⟨plain, endless⟩
          exact ⟨_, takes_adopt aborted success, .goes plain endless, fun _ => endless⟩
      | false =>
          exact ⟨_, takes_failBuild aborted kind success, .goes (.of_build rfl rfl rfl) rfl,
            fun _ => rfl⟩

/-- Behind the last leg there is nothing to go on to. -/
theorem heeds_last (takes : Takes f e now g) (endless : ends effects = []) :
    Heeds f e now ((g.goOnTearDown now).behind effects) := by
  rcases onward_goOnTearDown g now with ⟨onward, waits⟩
  have rested : Onward g effects g := .goes (.refl g) endless
  exact ⟨g, takes, rested.then_ endless onward,
    fun goesOn => absurd (waits.symm.trans goesOn) Bool.false_ne_true⟩

theorem heeds_tearDown (kind : e.kind ≠ .phaseEnd) :
    Heeds f e now (f.turn .tearDown (some e) now) := by
  rw [turn_tearDown]
  simp only [tearDownTurn, takeStep]
  cases aborted : f.aborted with
  | true =>
      rw [if_pos (show f.clearStep.aborted = true from aborted)]
      exact heeds_last (takes_of_aborted aborted rfl rfl rfl) rfl
  | false =>
      rw [if_neg (by simp [clearStep, aborted])]
      cases success : e.isSuccess with
      | true => exact heeds_last (takes_adopt aborted success) rfl
      | false =>
          have failed : Status.failed = (f.clearStep.failBuild e now).verdict := by
            rw [verdict, if_pos (.inr rfl)]
            rfl
          exact ⟨_, takes_failBuild aborted kind success,
            .closes _ (.refl _) rfl rfl rfl failed,
            fun goesOn => absurd goesOn Bool.false_ne_true⟩

/-- The turn on the run that takes a reply. -/
theorem Rests.heeds (rests : Rests plan begun f) (on : f.leg? = some .run)
    (accepted : f.accepts e = true) : Heeds f e now (f.turn .run (some e) now) := by
  cases aborted : f.aborted with
  | true => exact heeds_of_aborted aborted (by decide)
  | false =>
      obtain ⟨kind, patch, lane, phase, lane_at, awaited⟩ : e.kind = .phaseEnd ∧
          ∃ patch lane, e.phase = some patch ∧ f.lanes[patch.index]? = some lane ∧
            lane.awaited = some e.token := by
        simpa [on] using (accepts_inv accepted).2
      rcases rests.on_run on with ⟨past, stage, at_, -, onRun, inside, -⟩
      rcases inside.phaseTurn onRun at_ phase lane_at awaited with
        ⟨position, p, place, -, fits, turn⟩
      rw [turn_of_live aborted]
      change Heeds f e now (f.runTurn (some e))
      generalize f.runTurn (some e) = t at turn
      cases turn with
      | failed fails =>
          have takes : Takes f e now (f.behindFailure e patch position) :=
            takes_replied aborted kind on (.inr nofun)
          rcases plain_checkStage (f.behindFailure e patch position) stage with ⟨plain, endless⟩
          exact ⟨_, takes, .goes plain endless, fun _ => endless⟩
      | last success sent =>
          have completes : f.Completes e position :=
            ⟨success, on, aborted, patch, stage, _, phase, onRun.stages_eq at_, place,
              (sent_of_lane lane_at).symm ▸ Nat.le_of_eq sent.symm⟩
          have takes : Takes f e now (f.behindLast e patch position) :=
            takes_replied aborted kind on (.inl completes)
          rcases plain_checkStage (f.behindLast e patch position) stage with ⟨plain, endless⟩
          exact ⟨_, takes, .goes plain endless, fun _ => endless⟩
      | next a success next =>
          have takes : Takes f e now (f.behindNext e patch position) :=
            takes_replied aborted kind on (.inr nofun)
          exact ⟨_, takes, .goes (.refl _) rfl, fun _ => rfl⟩

/-- An event that is rejected is no more than a patch of a phase. -/
theorem plain_of_rejected (rejected : f.accepts e = false) (now : Moment) :
    Plain f (f.process e now).1 ∧ ends (f.process e now).2 = [] := by
  unfold process updatePhase
  split
  · exact ⟨.refl f, rfl⟩
  · split
    · split
      · exact ⟨.refl f, rfl⟩
      · split
        · split
          · exact ⟨plain_modifyPhase f _ fun _ done => done, rfl⟩
          · exact ⟨.refl f, rfl⟩
        · exact ⟨.refl f, rfl⟩
    · rw [rejected]
      exact ⟨.refl f, rfl⟩

/-- What an event makes of a flow that accepts it, and how the flow goes on. -/
theorem Rests.takes (rests : Rests plan begun f) (accepted : f.accepts e = true) (now : Moment) :
    ∃ h, Takes f e now h ∧ Onward h (f.drive (some e) now).2 (f.drive (some e) now).1 := by
  have onwards : ∀ {leg}, f.leg? = some leg → Heeds f e now (f.turn leg (some e) now) →
      ∃ h, Takes f e now h ∧ Onward h (f.drive (some e) now).2 (f.drive (some e) now).1 := by
    rintro leg on ⟨h, takes, turned, endless⟩
    obtain ⟨rest, legs⟩ := List.head?_eq_some_iff.1 on
    rw [drive_of_legs now legs]
    split
    · rename_i goesOn
      exact ⟨h, takes, turned.then_ (endless goesOn) (onward_drive _ now)⟩
    · exact ⟨h, takes, turned⟩
  rcases accepts_inv accepted with ⟨-, ⟨on, kind, -⟩ | ⟨on, kind, -⟩ | ⟨on, -⟩⟩
  · exact onwards on (heeds_setup (by simp [kind]))
  · exact onwards on (heeds_tearDown (by simp [kind]))
  · exact onwards on (rests.heeds on accepted)

end Takes

end Flow
end BuildPipeline
