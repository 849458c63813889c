import BuildPipeline.Proofs.Flow.Trailing
import Mathlib.Data.List.Induction

/-!
What phases learn about their containers. Three things tell a phase about its container: the stages
with which it is loaded, a reply that reports it as done, and an update. Each field is merged by
itself, so a phase always shows the last value that any of them gave for the field, where a report
counts only if its patch names a container (`Course.Unchecked.merges`). In particular a report that
gives nothing but a host and a port is lost (`Course.hostOnly_lost`).

`Flow.containers_call` says what one call makes of the containers of all phases; the lemmas before
it say so for each part of a turn, whatever state the flow is in.
-/

namespace BuildPipeline

open Time (Moment)

/-- The last value that is there. -/
def latest {α : Type} (values : List (Option α)) : Option α :=
  (values.filterMap id).getLast?

theorem latest_concat {α : Type} (values : List (Option α)) (value : Option α) :
    latest (values ++ [value]) = (value <|> latest values) := by
  cases value <;> simp [latest]

/-- The fields of a container: its id, its host and its port. -/
abbrev Container : Type :=
  Option String × Option String × Option UInt16

/-- The fields of a patch, with those of a container where the patch has none. -/
def PhasePatch.onto (patch : PhasePatch) : Container → Container
  | (id, host, port) =>
    (patch.containerId <|> id, patch.containerHost <|> host, patch.containerPort <|> port)

/-- A patch is taken over only if it names a container. -/
def PhasePatch.merged (patch : PhasePatch) (container : Container) : Container :=
  if patch.hasContainer then patch.onto container else container

theorem Phase.container_passedRun (patch : PhasePatch) (p : Phase) :
    (Flow.passedRun patch p).container = patch.merged p.container := by
  unfold Flow.passedRun PhasePatch.merged
  split <;> rfl

/-- The end of a build leaves the containers of its phases alone. -/
theorem Build.containers_settlePhases (b : Build) (s : Status) :
    (b.settlePhases s).phases.map (·.container) = b.phases.map (·.container) := by
  rw [settlePhases, List.map_map]
  refine List.map_congr_left fun p _ => ?_
  simp only [Function.comp]
  split <;> rfl

namespace Flow

variable (f : Flow)

/-- What the phases of the build say about their containers. -/
def containers : List Container :=
  f.build.phases.map (·.container)

/-- The phases that a call brings to the build, in the place of all that it has. -/
def brought? : Call → Option (List Phase)
  | .process e _ =>
    -- stages are taken from the completion of tear-down as well as from that of set-up
    if f.accepts e ∧ f.aborted = false ∧ e.isSuccess ∧ e.kind ≠ .phaseEnd then
      e.stages.map List.flatten
    else none
  | .start _ | .abort _ => none

/-- What a call reports about a phase: its position in the build and the patch. The reports are the
completions with success of a phase that the flow accepts, unless it is aborted and drops them, and
the updates that it publishes. -/
def report? : Call → Option (Nat × PhasePatch)
  | .process e now =>
    if e.kind = .phaseEnd ∧ f.accepts e ∧ f.aborted = false ∧ e.isSuccess ∨
        e.kind = .phaseUpdate ∧ (f.process e now).2 ≠ [] then
      e.phase.bind fun patch => (f.runningPosition? patch.index).map fun position =>
        (position, patch)
    else none
  | .start _ | .abort _ => none

/-- The containers behind a report. -/
def mergedAt (containers : List Container) : Option (Nat × PhasePatch) → List Container
  | some (position, patch) => containers.modify position patch.merged
  | none => containers

@[simp]
theorem mergedAt_none (containers : List Container) : mergedAt containers none = containers :=
  rfl

@[simp]
theorem mergedAt_some (containers : List Container) (position : Nat) (patch : PhasePatch) :
    mergedAt containers (some (position, patch)) = containers.modify position patch.merged :=
  rfl

/-! ## Parts of a turn -/

section Parts

variable {f : Flow} {change : Phase → Phase} {position : Nat}

theorem containers_modifyPhase {g : Container → Container}
    (gives : ∀ p, (change p).container = g p.container) :
    (f.modifyPhase position change).containers = f.containers.modify position g := by
  refine List.ext_getElem? fun i => ?_
  simp only [containers, modifyPhase, List.getElem?_map, List.getElem?_modify]
  cases f.build.phases[i]? with
  | none => rfl
  | some p => by_cases here : position = i <;> simp [here, gives]

/-- A change that leaves the container of the phase alone. -/
theorem containers_of_kept (kept : ∀ p, (change p).container = p.container) :
    (f.modifyPhase position change).containers = f.containers := by
  rw [containers_modifyPhase (g := id) kept, List.modify_id]

end Parts

theorem containers_checkStage (stage : Stage) :
    (f.checkStage stage).flow.containers = f.containers := by
  have checked := checked f stage
  generalize f.checkStage stage = t at checked
  cases checked with
  | waits => rfl
  | passed => rfl
  | cut =>
      refine List.ext_getElem? fun i => ?_
      simp only [Turn.again, containers, List.getElem?_map, getElem?_canceledAt, Option.map_map]
      refine congrArg (Option.map · _) (funext fun p => ?_)
      simp only [Function.comp]
      split <;> rfl

theorem containers_commandPhase (index position : Nat) :
    (f.commandPhase index position).1.containers = f.containers := by
  unfold commandPhase
  split <;> rfl

theorem containers_startPhase (index position : Nat) :
    (f.startPhase index position).1.containers = f.containers := by
  have begun : (f.modifyPhase position (·.beginRun index)).containers = f.containers :=
    containers_of_kept fun _ => rfl
  unfold startPhase
  split
  · split
    · rw [← begun]
      exact containers_of_kept fun _ => rfl
    · exact (containers_commandPhase _ index position).trans begun
  · rfl

theorem containers_startPhases (index : Nat) (positions : List Nat) :
    (f.startPhases index positions).1.containers = f.containers := by
  induction positions generalizing f index with
  | nil => rfl
  | cons position positions ih =>
      exact (ih _ (index + 1)).trans (containers_startPhase f index position)

theorem containers_commandStep (leg : Leg) :
    (f.commandStep leg).flow.containers = f.containers := by
  unfold commandStep
  split <;> rfl

theorem containers_goOnTearDown (now : Moment) :
    (f.goOnTearDown now).flow.containers = f.containers := by
  have tornDown := tornDown f now
  generalize f.goOnTearDown now = t at tornDown
  cases tornDown with
  | sent => rfl
  | complete _ _ build eq =>
      subst eq
      rfl
  | ended => rfl

/-! ## Turns -/

/-- A turn without an event. -/
theorem containers_turn_none (leg : Leg) (now : Moment) :
    (f.turn leg none now).flow.containers = f.containers := by
  unfold turn
  split
  · rfl
  · cases leg with
    | setup => exact containers_commandStep f .setup
    | tearDown => exact containers_goOnTearDown f now
    | run =>
        change (f.runTurn none).flow.containers = f.containers
        unfold runTurn
        split
        · rfl
        · exact (containers_checkStage _ _).trans (containers_startPhases (f.armed _) 0 _)
        · contradiction

theorem containers_drive_none (now : Moment) :
    (f.drive none now).1.containers = f.containers := by
  generalize none_ : (none : Option Event) = e
  fun_induction drive f e now with
  | case1 => rfl
  | case2 f e leg rest legs goesOn g effects driven ih =>
      subst none_
      have onwards := ih rfl
      rw [driven] at onwards
      exact onwards.trans (containers_turn_none f leg now)
  | case3 f e leg rest legs waits =>
      subst none_
      exact containers_turn_none f leg now

/-- Behind the turn that takes the event a drive leaves the containers alone. -/
theorem containers_drive_some {leg : Leg} (on : f.leg? = some leg) (e : Event) (now : Moment) :
    (f.drive (some e) now).1.containers = (f.turn leg (some e) now).flow.containers := by
  unfold drive
  split
  · rename_i none_left
    simp [leg?, none_left] at on
  · rename_i first rest legs
    obtain rfl : first = leg := by simpa [leg?, legs] using on
    split
    · exact containers_drive_none _ now
    · rfl

/-- The containers behind the completion of a step: it brings phases if it reports success and is
not dropped. -/
def containersBehindStep (e : Event) : List Container :=
  if f.aborted = false ∧ e.isSuccess = true then
    ((e.stages.map List.flatten).map (·.map (·.container))).getD f.containers
  else f.containers

theorem containers_takeStep (e : Event) (now : Moment) :
    (f.takeStep e now).1.containers = f.containersBehindStep e := by
  unfold takeStep containersBehindStep
  cases aborted : f.aborted with
  | true => simp
  | false =>
      cases success : e.isSuccess with
      | true =>
          cases stages : e.stages with
          | none => simp [adopt, stages, loadStages?, containers]
          | some stages =>
              simp only [adopt, stages, loadStages?, loadStages, containers]
              simp only [Bool.false_eq_true, if_false, if_true, and_self, Option.map_some,
                Option.getD_some, List.map_map]
              rfl
      | false =>
          simp only [Bool.false_eq_true, if_false, and_false]
          exact f.build.containers_settlePhases .failed

theorem containers_stepTurn {leg : Leg} (step : leg ≠ .run) (e : Event) (now : Moment) :
    (f.turn leg (some e) now).flow.containers = f.containersBehindStep e := by
  have taken : (f.clearStep.takeStep e now).1.containers = f.containersBehindStep e :=
    containers_takeStep f.clearStep e now
  unfold turn
  split
  · rename_i drops
    rw [containersBehindStep, if_neg (by simp [drops.1])]
    rfl
  · rw [← taken]
    cases leg with
    | run => exact absurd rfl step
    | setup =>
        simp only [setupTurn]
        rcases f.clearStep.takeStep e now with ⟨g, effects, sound⟩
        cases sound with
        | true => exact containers_commandStep g .setup
        | false => rfl
    | tearDown =>
        simp only [tearDownTurn]
        rcases f.clearStep.takeStep e now with ⟨g, effects, sound⟩
        cases sound with
        | true => exact containers_goOnTearDown g now
        | false => rfl

theorem containers_phasePassed (stage : Stage) (index position : Nat) (patch : PhasePatch) :
    (f.phasePassed stage index position patch).flow.containers =
      f.containers.modify position patch.merged := by
  have passed : (f.modifyPhase position (passedRun patch)).containers =
      f.containers.modify position patch.merged :=
    containers_modifyPhase (Phase.container_passedRun patch)
  unfold phasePassed
  rw [← passed]
  split
  · exact (containers_checkStage _ stage).trans (containers_of_kept fun _ => rfl)
  · exact (containers_commandPhase _ index position).trans
      (containers_of_kept fun _ => rfl)

theorem containers_phaseFailed (stage : Stage) (position : Nat) (e : Event) :
    (f.phaseFailed stage position e).flow.containers = f.containers :=
  (containers_checkStage _ stage).trans (containers_of_kept fun _ => rfl)

theorem containers_takePhase {stage : Stage} {rest : List Stage} (queue : f.stages = stage :: rest)
    (e : Event) (patch : PhasePatch) (phase : e.phase = some patch) :
    (f.takePhase stage e).flow.containers =
      if e.isSuccess then
        mergedAt f.containers ((f.runningPosition? patch.index).map (·, patch))
      else f.containers := by
  have adopted : ∀ child, ((f.clearLane patch.index).adoptChild child).containers = f.containers ∧
      ((f.clearLane patch.index).adoptChild child).build.phases = f.build.phases :=
    fun child => by cases child <;> exact ⟨rfl, rfl⟩
  obtain ⟨same, phases⟩ := adopted e.childRepository
  simp only [takePhase, phase, runningPosition?, queue, List.head?_cons, Option.bind_some]
  cases place : stage.position? patch.index with
  | none => cases e.isSuccess <;> rfl
  | some position =>
      simp only [Option.filter_some, phases, decide_eq_true_eq]
      by_cases inside : position < f.build.phases.length
      · simp only [inside, if_true]
        cases success : e.isSuccess with
        | true => exact (containers_phasePassed _ stage _ position patch).trans (by rw [same]; rfl)
        | false => exact (containers_phaseFailed _ stage position e).trans same
      · rw [if_neg inside, if_neg inside]
        cases e.isSuccess <;> exact same

/-! ## Calls -/

/-- What a call makes of the containers of the phases. -/
def containersBehind (call : Call) : List Container :=
  match f.brought? call with
  | some all => all.map (·.container)
  | none => mergedAt f.containers (f.report? call)

/-- An update tells a phase about its container exactly if it is published. -/
theorem containers_update (e : Event) :
    (f.updatePhase e).1.containers =
      mergedAt f.containers (if (f.updatePhase e).2 ≠ [] then
        e.phase.bind fun patch => (f.runningPosition? patch.index).map (·, patch) else none) := by
  unfold updatePhase
  cases phase : e.phase with
  | none => rfl
  | some patch =>
      dsimp only
      split
      · rename_i told
        cases place : f.runningPosition? patch.index with
        | none => rfl
        | some position =>
            have gives : ∀ p : Phase, (p.applyContainer patch).container =
                patch.merged p.container := fun p => by
              rw [PhasePatch.merged, if_pos told.2.1]
              rfl
            simp [place, containers_modifyPhase gives]
      · rfl

/-- The completion of a step that is accepted. -/
theorem containers_of_step {e : Event} {leg : Leg} (accepted : f.accepts e = true)
    (on : f.leg? = some leg) (step : leg ≠ .run)
    (kind : e.kind ≠ .phaseEnd ∧ e.kind ≠ .phaseUpdate) (now : Moment) :
    (f.drive (some e) now).1.containers = f.containersBehind (.process e now) := by
  rw [containers_drive_some f on, containers_stepTurn f step, containersBehindStep]
  simp only [containersBehind, brought?, report?, accepted, kind.1, kind.2, true_and, ne_eq,
    not_false_eq_true, and_true, false_and, or_self, if_false]
  by_cases sound : f.aborted = false ∧ e.isSuccess = true
  · rw [if_pos sound, if_pos sound]
    cases e.stages <;> rfl
  · rw [if_neg sound, if_neg sound]
    rfl

/-- The completion of a phase that is accepted. -/
theorem containers_of_reply {e : Event} {patch : PhasePatch} (accepted : f.accepts e = true)
    (on : f.leg? = some .run) (kind : e.kind = .phaseEnd) (phase : e.phase = some patch)
    (now : Moment) :
    (f.drive (some e) now).1.containers = f.containersBehind (.process e now) := by
  rw [containers_drive_some f on]
  simp only [containersBehind, brought?, report?, accepted, kind, phase, ne_eq, not_true_eq_false,
    and_false, if_false, true_and, reduceCtorEq, false_and, or_false, Option.bind_some]
  cases aborted : f.aborted with
  | true =>
      rw [turn_of_aborted aborted (by decide)]
      rfl
  | false =>
      rw [turn_of_live aborted]
      change (f.runTurn (some e)).flow.containers = _
      cases queue : f.stages with
      | nil => simp [runTurn, queue, runningPosition?, Turn.again, leaveLeg, containers]
      | cons stage rest =>
          simp only [runTurn, queue]
          rw [containers_takePhase f queue e patch phase]
          cases f.runningPosition? patch.index with
          | none => simp
          | some position => cases e.isSuccess <;> simp

theorem containers_process (e : Event) (now : Moment) :
    (f.process e now).1.containers = f.containersBehind (.process e now) := by
  by_cases update : e.kind = .phaseUpdate
  · have rejected := f.accepts_of_update update
    simp only [containersBehind, brought?, report?, rejected, update, Bool.false_eq_true,
      reduceCtorEq, false_and, if_false, true_and, false_or]
    unfold process
    cases f.ended with
    | true => simp
    | false =>
        simp only [Bool.false_eq_true, if_false, update, if_true]
        exact containers_update f e
  · cases accepted : f.accepts e with
    | true =>
        obtain ⟨going, cases_⟩ := accepts_inv accepted
        have driven : f.process e now = f.drive (some e) now := by
          simp [process, going, update, accepted]
        rw [driven]
        obtain ⟨on, kind, -⟩ | ⟨on, kind, -⟩ | ⟨on, kind, patch, lane, phase, -⟩ := cases_
        · exact containers_of_step f accepted on (by decide) (by simp [kind]) now
        · exact containers_of_step f accepted on (by decide) (by simp [kind]) now
        · exact containers_of_reply f accepted on kind phase now
    | false =>
        have same : f.process e now = (f, []) := Course.process_of_inert (.inl ⟨update, accepted⟩)
        simp [containersBehind, brought?, report?, accepted, update, same]

theorem containers_call (call : Call) :
    (f.call call).1.containers = f.containersBehind call := by
  cases call with
  | start now => exact containers_drive_none f.takeOff now
  | abort now =>
      simp only [Flow.call, abort]
      split
      · rfl
      · exact f.build.containers_settlePhases .canceled
  | process e now => exact containers_process f e now

/-- A failure leaves every container alone. -/
theorem containers_of_failure {e : Event} (fails : e.isSuccess = false) (now : Moment) :
    (f.process e now).1.containers = f.containers := by
  have silent : e.kind = .phaseUpdate → (f.process e now).2 = [] := by
    intro update
    unfold process updatePhase
    cases f.ended with
    | true => rfl
    | false => cases e.phase <;> simp [update, fails]
  have nothing : f.report? (.process e now) = none := by
    refine if_neg ?_
    rintro (⟨-, -, -, success⟩ | ⟨update, told⟩)
    · rw [fails] at success
      cases success
    · exact told (silent update)
  rw [containers_process, containersBehind, nothing]
  simp [brought?, fails]

end Flow

/-! ## Courses -/

/-- The fields that a container is left with by some patches that are taken over in order. -/
def PhasePatch.overlaid (patches : List PhasePatch) (container : Container) : Container :=
  patches.foldl (fun container patch => patch.onto container) container

/-- Each field is the last one that is there. -/
theorem PhasePatch.overlaid_eq (patches : List PhasePatch) (container : Container) :
    overlaid patches container =
      (latest (container.1 :: patches.map (·.containerId)),
        latest (container.2.1 :: patches.map (·.containerHost)),
        latest (container.2.2 :: patches.map (·.containerPort))) := by
  induction patches using List.reverseRecOn with
  | nil =>
      obtain ⟨id, host, port⟩ := container
      cases id <;> cases host <;> cases port <;> rfl
  | append_singleton patches patch ih =>
      rw [overlaid, List.foldl_concat, ← overlaid, ih]
      simp only [List.map_append, List.map_cons, List.map_nil, ← List.cons_append, latest_concat,
        onto]

/-- One more patch, which is taken over if it names a container. -/
theorem PhasePatch.overlaid_concat (patches : List PhasePatch) (patch : PhasePatch)
    (container : Container) :
    overlaid ((patches ++ [patch]).filter (·.hasContainer)) container =
      patch.merged (overlaid (patches.filter (·.hasContainer)) container) := by
  unfold merged
  split
  · rename_i named
    simp [overlaid, named]
  · rename_i unnamed
    simp [overlaid, unnamed]

/-- Each container field of a phase is the last one among that of the phase as it was loaded and
those of some patches. -/
structure Phase.Gathered (loaded : Phase) (patches : List PhasePatch) (p : Phase) : Prop where
  id : p.containerId = latest (loaded.containerId :: patches.map (·.containerId))
  host : p.containerHost = latest (loaded.containerHost :: patches.map (·.containerHost))
  port : p.containerPort = latest (loaded.containerPort :: patches.map (·.containerPort))

namespace Course

/-- The phases that were loaded last, and the calls since. -/
def lately (build : Build) (entries : List Entry) : List Phase × List Entry :=
  entries.foldl
    (fun past n =>
      match n.before.brought? n.call with
      | some all => (all, [])
      | none => (past.1, past.2 ++ [n]))
    (build.phases, [])

/-- The patches that were reported for the phase at a position of the build. -/
def reports (position : Nat) (entries : List Entry) : List PhasePatch :=
  (entries.filterMap fun n => n.before.report? n.call).filterMap fun report =>
    if report.1 = position then some report.2 else none

/-- How the containers of the phases come about. -/
structure Merges (build : Build) (c : Course) : Prop where
  fields : ∀ (position : Nat) (p : Phase), c.flow.build.phases[position]? = some p →
    ∃ loaded, (lately build c.entries).1[position]? = some loaded ∧
      loaded.Gathered ((reports position (lately build c.entries).2).filter (·.hasContainer)) p
  failures : ∀ e now, e.isSuccess = false →
    (c.flow.process e now).1.containers = c.flow.containers

section Merging

variable {build : Build} {script : Option String} {chains : Chains} {c : Course}

/-- The containers of the phases are those that were loaded, overlaid by the reports since. -/
def Overlaid (build : Build) (c : Course) : Prop :=
  ∀ position, c.flow.containers[position]? =
    (lately build c.entries).1[position]?.map fun loaded =>
      PhasePatch.overlaid
        ((reports position (lately build c.entries).2).filter (·.hasContainer)) loaded.container

theorem overlaid_idle : Overlaid build (idle build script chains) := by
  intro position
  simp [idle, Flow.containers, lately, reports, PhasePatch.overlaid]

theorem Overlaid.then_ (overlaid : Overlaid build c) (call : Call) :
    Overlaid build (c.then_ call) := by
  intro position
  have behind : (c.then_ call).flow.containers = c.flow.containersBehind call :=
    c.flow.containers_call call
  have past : lately build (c.then_ call).entries =
      match c.flow.brought? call with
      | some all => (all, [])
      | none => ((lately build c.entries).1, (lately build c.entries).2 ++ [c.entry call]) :=
    List.foldl_concat ..
  rw [behind, past, Flow.containersBehind]
  cases c.flow.brought? call with
  | some all => simp [reports, PhasePatch.overlaid]
  | none =>
      have own : (c.entry call).before.report? (c.entry call).call = c.flow.report? call := rfl
      cases told : c.flow.report? call with
      | none => simpa [reports, own, told] using overlaid position
      | some report =>
          obtain ⟨at_, patch⟩ := report
          have onwards := overlaid position
          simp only [Flow.mergedAt_some, List.getElem?_modify, onwards]
          by_cases here : at_ = position
          · have one : reports position ((lately build c.entries).2 ++ [c.entry call]) =
                reports position (lately build c.entries).2 ++ [patch] := by
              simp [reports, own, told, here]
            simp [one, here, PhasePatch.overlaid_concat, -List.filter_append, Function.comp_def]
          · have none_ : reports position ((lately build c.entries).2 ++ [c.entry call]) =
                reports position (lately build c.entries).2 := by
              simp [reports, own, told, here]
            simp [none_, here]

theorem Unchecked.overlaid (run : Unchecked build script chains c) : Overlaid build c := by
  induction run with
  | start now => exact overlaid_idle.then_ _
  | step _ call _ ih => exact ih.then_ call

/-- Each container field of a phase is merged by itself. -/
theorem Unchecked.merges (run : Unchecked build script chains c) : c.Merges build := by
  refine ⟨fun position p at_p => ?_, fun e now fails => c.flow.containers_of_failure fails now⟩
  have same := run.overlaid position
  rw [Flow.containers, List.getElem?_map, at_p, Option.map_some] at same
  obtain ⟨loaded, at_loaded, eq⟩ := Option.map_eq_some_iff.1 same.symm
  rw [PhasePatch.overlaid_eq] at eq
  exact ⟨loaded, at_loaded, congrArg (·.1) eq.symm, congrArg (·.2.1) eq.symm,
    congrArg (·.2.2) eq.symm⟩

/-- A build of one phase whose first provider reports the host and the port of a container that an
update has named before. -/
def hosted : Course :=
  (underWay.then_ (.process (reported ⟨2⟩) Moment.origin)).then_ (.process
    { completed ⟨2⟩ with phase := some ⟨0, some "d", some "node", some 2375⟩ } Moment.origin)

theorem merges_hosted :
    Unchecked { id := ⟨"b"⟩, createdAt := Moment.origin } none
        { shortChains with tearDown := [⟨.tearDown, 0, 0⟩] } hosted ∧
      hosted.flow.build.phases.map (·.container) = [(some "d", some "node", some 2375)] ∧
      hosted.Merges { id := ⟨"b"⟩, createdAt := Moment.origin } := by
  have run := (unchecked_underWay.step (.process (reported ⟨2⟩) Moment.origin) trivial).step
    (.process { completed ⟨2⟩ with phase := some ⟨0, some "d", some "node", some 2375⟩ }
      Moment.origin) trivial
  exact ⟨run, by cbv, Unchecked.merges run⟩

/-- A build of one phase whose first provider reports a host and a port, and no container id. -/
def hostOnly : Course :=
  underWay.then_ (.process
    { completed ⟨2⟩ with phase := some ⟨0, none, some "node", some 2375⟩ } Moment.origin)

/-- The report is accepted, but what it says is lost. -/
theorem hostOnly_lost :
    let build : Build := { id := ⟨"b"⟩, createdAt := Moment.origin }
    Unchecked build none { shortChains with tearDown := [⟨.tearDown, 0, 0⟩] } hostOnly ∧
      (taken hostOnly.entries).map (fun e => (e.token.number, e.statusCode)) =
        [(1, 200), (2, 200)] ∧
      reports 0 (lately build hostOnly.entries).2 = [⟨0, none, some "node", some 2375⟩] ∧
      hostOnly.flow.build.phases.map (·.container) = [(none, none, none)] ∧
      ¬∀ (position : Nat) (p : Phase), hostOnly.flow.build.phases[position]? = some p →
        ∃ loaded, (lately build hostOnly.entries).1[position]? = some loaded ∧
          loaded.Gathered (reports position (lately build hostOnly.entries).2) p := by
  intro build
  have told : reports 0 (lately build hostOnly.entries).2 =
      [⟨0, none, some "node", some 2375⟩] := by cbv
  have shown : hostOnly.flow.build.phases.map (·.container) = [(none, none, none)] := by cbv
  refine ⟨unchecked_underWay.step _ trivial, by cbv, told, shown, fun law => ?_⟩
  have there : ∃ p, hostOnly.flow.build.phases[0]? = some p ∧ p.container = (none, none, none) := by
    have first := congrArg (·[0]?) shown
    simpa using first
  obtain ⟨p, at_p, bare⟩ := there
  obtain ⟨loaded, -, gathered⟩ := law 0 p at_p
  have host := gathered.host
  rw [told, show p.containerHost = none from congrArg (·.2.1) bare] at host
  have kept : none = some "node" := host.trans (latest_concat [loaded.containerHost] (some "node"))
  cases kept

end Merging

end Course
end BuildPipeline
