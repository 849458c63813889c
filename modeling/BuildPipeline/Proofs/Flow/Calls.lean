import BuildPipeline.Proofs.Flow.Steady
import BuildPipeline.Proofs.Flow.Turns

/-!
What a call comes to. While a flow passes from turn to turn it sends nothing (`Between`): whatever a
call sends, its last turn sends. So a call that passes on lands in one of three ways (`Lands`): with
the first command of set-up or tear-down, with the first commands of a stage, or at the end. A call
whose event is taken by a turn that waits is told by that turn alone (`Answered`).
-/

namespace BuildPipeline

open Time (Moment)

namespace Flow

/-- A stage whose start sends nothing. -/
def Barren (chains : Chains) (stage : Stage) : Prop :=
  chains.count .runPhase = 0 ∨ stage.members = []

/-- A flow `h` that was passed on to from `f` after some effects and with some stages started, when
`begun` stages were started before. -/
structure Between (plan : List Stage) (begun : Nat) (f : Flow) (done : List Effect)
    (started : List Stage) (h : Flow) : Prop where
  passes : Passes plan (begun + started.length) h
  steady : Steady f h
  minted : h.minted = f.minted
  silent : sends done = []
  endless : ends done = []
  barren : ∀ s ∈ started, Barren f.chains s
  planned : ∀ (j : Nat) (s : Stage), started[j]? = some s → plan[begun + j]? = some s
  legs : h.legs <:+ f.legs
  queue : f.stages = started ++ h.stages
  phases : ∀ position : Nat, (∀ s ∈ started, position ∉ s.members) →
    h.build.phases[position]? = f.build.phases[position]?

/-- How a call lands that passes on from `f`, when `begun` stages were started before. -/
inductive Lands (plan : List Stage) (begun : Nat) (f : Flow) :
    List Effect → List Stage → Flow → Prop
  | step {done : List Effect} {started : List Stage} {h : Flow} (leg : Leg) (ne : leg ≠ .run)
      (a : Address) (between : Between plan begun f done started h) (on : h.leg? = some leg)
      (live : leg = .setup → h.aborted = false) (count : h.dispatched = 0)
      (next : f.chains.address? leg.capability 0 = some a) :
      Lands plan begun f (done ++ [.dispatch a (h.stepCommand leg)]) started h.commanded
  | stage {done : List Effect} {started : List Stage} {h : Flow} (s : Stage) (a : Address)
      (between : Between plan begun f done started h) (live : h.aborted = false)
      (on : OnRun plan (begun + started.length) (begun + started.length) h)
      (at_ : plan[begun + started.length]? = some s) (some_ : s.members ≠ [])
      (head : f.chains.address? .runPhase 0 = some a) :
      Lands plan begun f (done ++ (h.startStage s).2) (started ++ [s]) (h.startStage s).1
  | finished {done : List Effect} {started : List Stage} {h : Flow} (build : Build)
      (effects : List Effect) (between : Between plan begun f done started h)
      (on : h.leg? = some .tearDown) (silent : sends effects = []) (endless : ends effects = [])
      (phases : build.phases = h.build.phases) :
      Lands plan begun f (done ++ (effects ++ [.finish build])) started { h with build }.finish

section Landing

variable {plan : List Stage} {begun : Nat} {f h : Flow} {done : List Effect}
  {started : List Stage} {leg : Leg} {rest : List Leg} {now : Moment} {t : Turn} {stage : Stage}

theorem Between.refl (passes : Passes plan begun f) : Between plan begun f [] [] f :=
  ⟨passes, .refl f, rfl, rfl, rfl, by simp, by simp, List.suffix_refl _, rfl,
    fun _ _ => rfl⟩

/-- The phases of a stage that was just started keep it open. -/
theorem OnRun.startStage_waits {past : Nat} {a : Address} (on : OnRun plan past past f)
    (live : f.aborted = false) (at_ : plan[past]? = some stage)
    (head : f.chains.address? .runPhase 0 = some a) (some_ : stage.members ≠ []) :
    ¬stage.Holds (f.startStage stage).1.build.phases (·.finalResult.isTerminal = true) := by
  rcases on.startStage live at_ head with ⟨fan, onStage, inside⟩
  have first := fan.lanes 0 (List.length_pos_iff.2 some_)
  exact inside.not_complete onStage at_ first rfl

/-- The commands that go out when a stage is started are those of the fan-out. -/
theorem effects_startStage (f : Flow) (stage : Stage) :
    (f.startStage stage).2 = f.fanOut stage ++ [(f.startStage stage).1.snapshot] :=
  rfl

theorem Between.sends_startStage (between : Between plan begun f done started h) (s : Stage) :
    sends (done ++ (h.startStage s).2) = sends (h.fanOut s) := by
  rw [effects_startStage, sends_append, sends_append, between.silent]
  simp [snapshot]

/-- The start of a stage without phases sends nothing. -/
theorem startStage_of_empty (f : Flow) (empty : stage.members = []) :
    f.startStage stage = ({ f with lanes := [] }, [.publish f.build]) := by
  simp only [startStage, empty, startPhases]
  rfl

theorem Between.starting (between : Between plan begun f done started h)
    (at_ : plan[begun + started.length]? = some stage) :
    ∀ (j : Nat) (s : Stage), (started ++ [stage])[j]? = some s → plan[begun + j]? = some s := by
  intro j s hs
  rcases Nat.lt_trichotomy j started.length with before | here | behind
  · rw [List.getElem?_append_left before] at hs
    exact between.planned j s hs
  · rw [here, List.getElem?_append_right (Nat.le_refl _), Nat.sub_self] at hs
    cases hs
    rw [here]
    exact at_
  · rw [List.getElem?_eq_none (by simp; omega)] at hs
    cases hs

theorem Between.popped (between : Between plan begun f done started h)
    (on : OnRun plan (begun + started.length) (begun + started.length) h)
    (at_ : plan[begun + started.length]? = some stage) :
    f.stages = (started ++ [stage]) ++ h.stages.tail := by
  have queue := on.stages_eq at_
  rw [between.queue, queue, List.tail_cons, List.append_assoc, List.singleton_append]

theorem Between.again (between : Between plan begun f done started h) (legs : h.legs = leg :: rest)
    (bare : Bare plan (begun + started.length) h now leg t) (goesOn : t.goesOn = true) :
    Between plan begun f (done ++ t.effects) (started ++ (h.starting? leg none).toList) t.flow := by
  have leads := (bare.leads between.passes legs).1 goesOn
  rw [Nat.add_assoc, ← List.length_append] at leads
  have barren : ∀ s, Barren f.chains s → ∀ x ∈ started ++ [s], Barren f.chains x := by
    intro s here x mem
    rcases List.mem_append.1 mem with before | now_
    · exact between.barren x before
    · rw [List.mem_singleton.1 now_]
      exact here
  have before : ∀ {position : Nat} {s : Stage}, (∀ x ∈ started ++ [s], position ∉ x.members) →
      ∀ x ∈ started, position ∉ x.members :=
    fun out x mem => out x (List.mem_append_left _ mem)
  cases bare with
  | left _ ne finished none_ =>
      rw [none_] at leads ⊢
      rw [Option.toList_none, List.append_nil] at leads ⊢
      refine ⟨leads, between.steady.trans (steady_leaveLeg h), between.minted, ?_, ?_,
        between.barren, between.planned, ?_, between.queue, between.phases⟩
      · simpa [Turn.again] using between.silent
      · simpa [Turn.again] using between.endless
      · exact (List.tail_suffix _).trans between.legs
  | opened => cases goesOn
  | started stage a live on at_ starts head =>
      rw [starts] at leads ⊢
      have empty : stage.members = [] := by
        apply Classical.byContradiction
        intro some_
        have open_ := on.startStage_waits live at_ head some_
        rw [checkStage_of_incomplete open_] at goesOn
        cases goesOn
      have none_fails :
          stage.Holds (h.startStage stage).1.build.phases (·.finalResult = .done) := by
        intro position mem
        rw [empty] at mem
        cases mem
      rw [checkStage_of_successful none_fails, startStage_of_empty h empty] at leads ⊢
      refine ⟨leads, between.steady.trans ⟨rfl, rfl, rfl, rfl, Nat.le_refl _⟩, between.minted, ?_,
        ?_, barren stage (.inr empty), between.starting at_, between.legs, ?_, ?_⟩
      · simpa [Turn.again, Turn.behind] using between.silent
      · simpa [Turn.again, Turn.behind] using between.endless
      · exact between.popped on at_
      · exact fun position out => between.phases position (before out)
  | skipped stage live on at_ starts none_ =>
      rw [starts] at leads ⊢
      have skips := on.skips live at_ none_
      have steady := between.steady.trans (steady_startStage h stage)
      refine ⟨leads, ⟨steady.id, steady.script, steady.chains, steady.aborted, steady.minted⟩,
        skips.minted.trans between.minted, ?_, ?_, barren stage (.inl ?_), between.starting at_,
        ?_, between.popped on at_, ?_⟩
      · simpa [Turn.again] using between.silent
      · simpa [Turn.again] using between.endless
      · rw [← between.steady.chains]
        exact none_
      · simpa [Turn.again] using between.legs
      · intro position out
        have own := skips.others position
          (out stage (List.mem_append_right _ (List.mem_singleton_self _)))
        exact own.trans (between.phases position (before out))
  | tornDown _ turn => cases turn <;> cases goesOn

theorem Between.lands (between : Between plan begun f done started h) (legs : h.legs = leg :: rest)
    (bare : Bare plan (begun + started.length) h now leg t) (waits : t.goesOn = false) :
    Lands plan begun f (done ++ t.effects) (started ++ (h.starting? leg none).toList) t.flow := by
  have chains := between.steady.chains
  have at_leg : h.leg? = some leg := by simp [leg?, legs]
  cases bare with
  | left => cases waits
  | opened a live next =>
      have count : h.dispatched = 0 := between.passes.dispatched_eq (by simp [at_leg])
      have none_ : h.starting? .setup none = none := by simp [starting?]
      rw [none_, Option.toList_none, List.append_nil]
      rw [chains, count] at next
      exact .step .setup (by decide) a between at_leg (fun _ => live) count next
  | started stage a live on at_ starts head =>
      rw [starts]
      have some_ : stage.members ≠ [] := by
        intro empty
        have none_fails :
            stage.Holds (h.startStage stage).1.build.phases (·.finalResult = .done) := by
          intro position mem
          rw [empty] at mem
          cases mem
        rw [checkStage_of_successful none_fails] at waits
        cases waits
      rw [checkStage_of_incomplete (on.startStage_waits live at_ head some_)]
      simp only [Turn.behind, Turn.wait, List.append_nil, Option.toList_some]
      rw [chains] at head
      exact .stage stage a between live on at_ some_ head
  | skipped => cases waits
  | tornDown _ turn =>
      have none_ : h.starting? .tearDown none = none := by simp [starting?]
      rw [none_, Option.toList_none, List.append_nil]
      cases turn with
      | sent a next =>
          have count : h.dispatched = 0 := between.passes.dispatched_eq (by simp [at_leg])
          rw [chains, count] at next
          exact .step .tearDown (by decide) a between at_leg (fun same => by cases same) count next
      | complete last live build eq =>
          exact .finished build [.publish build] between at_leg rfl rfl (by rw [eq]; rfl)
      | ended last why => exact .finished h.build [] between at_leg rfl rfl rfl

/-- Passing on changes only phases of the stages that are started. -/
theorem Lands.phases {effects : List Effect} {g : Flow}
    (lands : Lands plan begun f effects started g) {position : Nat}
    (out : ∀ s ∈ started, position ∉ s.members) :
    g.build.phases[position]? = f.build.phases[position]? := by
  cases lands with
  | step leg ne a between => exact between.phases position out
  | @stage done started h s a between live on at_ some_ head =>
      have head' : h.chains.address? .runPhase 0 = some a := between.steady.chains ▸ head
      rcases on.startStage live at_ head' with ⟨fan, -⟩
      have own := fan.others position
        (out s (List.mem_append_right _ (List.mem_singleton_self _)))
      exact own.trans (between.phases position fun x mem => out x (List.mem_append_left _ mem))
  | finished build effects between on silent endless phases =>
      have same := between.phases position out
      simpa [finish, phases] using same

/-- The stages that are started come from the head of the queue, and what is left of the queue is
at its end. -/
theorem Lands.queue {effects : List Effect} {g : Flow}
    (lands : Lands plan begun f effects started g) :
    started <+: f.stages ∧ g.stages <:+ f.stages := by
  cases lands with
  | step leg ne a between =>
      rw [between.queue]
      exact ⟨List.prefix_append _ _, List.suffix_append _ _⟩
  | @stage done started h s a between live on at_ =>
      constructor
      · rw [between.popped on at_]
        exact List.prefix_append _ _
      · rw [between.queue, stages_startStage]
        exact List.suffix_append _ _
  | finished build effects between =>
      rw [between.queue]
      exact ⟨List.prefix_append _ _, List.suffix_append _ _⟩

/-- The stages that are started are the next ones of the plan. -/
theorem Lands.planned {effects : List Effect} {g : Flow}
    (lands : Lands plan begun f effects started g) :
    ∀ (j : Nat) (s : Stage), started[j]? = some s → plan[begun + j]? = some s := by
  cases lands with
  | step leg ne a between => exact between.planned
  | stage s a between live on at_ => exact between.starting at_
  | finished build effects between => exact between.planned

/-- How a drive without an event lands, and that the flow rests behind it. -/
theorem Passes.lands (passes : Passes plan begun f) (now : Moment) :
    Lands plan begun f (f.drive none now).2 (f.startedBy none now) (f.drive none now).1 ∧
      Rests plan (begun + (f.startedBy none now).length) (f.drive none now).1 := by
  have landed : Lands plan begun f ([] ++ (f.drive none now).2) ([] ++ f.startedBy none now)
        (f.drive none now).1 ∧
      Rests plan (begun + ([] ++ f.startedBy none now).length) (f.drive none now).1 := by
    refine drive_rule now
      (fun done started h e => e = none ∧ Between plan begun f done started h)
      (fun done started g =>
        Lands plan begun f done started g ∧ Rests plan (begun + started.length) g)
      ?finished ?again ?stop ⟨rfl, .refl passes⟩
    case finished =>
      rintro done started h e legs ⟨rfl, between⟩
      cases between.passes with
      | setup on => cases on.legs.symm.trans legs
      | run on => cases on.legs.symm.trans legs
      | cut legs' => cases legs'.symm.trans legs
      | tearDown legs' => cases legs'.symm.trans legs
    case again =>
      rintro done started h e leg rest legs ⟨rfl, between⟩ goesOn
      exact ⟨rfl, between.again legs (between.passes.bare legs) goesOn⟩
    case stop =>
      rintro done started h e leg rest legs ⟨rfl, between⟩ waits
      have bare : Bare plan (begun + started.length) h now leg (h.turn leg none now) :=
        between.passes.bare legs
      have rests := (bare.leads between.passes legs).2 waits
      rw [Nat.add_assoc, ← List.length_append] at rests
      exact ⟨between.lands legs bare waits, rests⟩
  simpa only [List.nil_append] using landed

end Landing

/-! ## Calls that take no turn -/

/-- A flow whose build was touched, and perhaps marked as aborted, and that stands where it did. -/
structure Touched (f g : Flow) : Prop where
  frame : g = { f with build := g.build, aborted := g.aborted }
  size : g.build.phases.length = f.build.phases.length
  marked : f.aborted = true → g.aborted = true
  phases : ∀ (position : Nat) (p : Phase), g.build.phases[position]? = some p →
    ∃ q, f.build.phases[position]? = some q ∧ p.runResults = q.runResults ∧
      (g.aborted = false → p.status = q.status) ∧
      (q.status.isTerminal = true → p.status.isTerminal = true)
  settles : g.AbortSettles

section Touched

variable {plan : List Stage} {begun past next : Nat} {f g : Flow} {s : Stage}

theorem Touched.live (touched : Touched f g) (live : g.aborted = false) : f.aborted = false := by
  cases aborted : f.aborted with
  | false => rfl
  | true =>
      rw [touched.marked aborted] at live
      cases live

theorem Touched.holds (touched : Touched f g) {P Q : Phase → Prop} (h : s.Holds f.build.phases P)
    (kept : ∀ p q : Phase, p.runResults = q.runResults →
      (g.aborted = false → p.status = q.status) →
      (q.status.isTerminal = true → p.status.isTerminal = true) → P q → Q p) :
    s.Holds g.build.phases Q := by
  intro position mem p at_
  rcases touched.phases position p at_ with ⟨q, at_q, results, status, finished⟩
  exact kept p q results status finished (h position mem q at_q)

theorem Touched.fresh (touched : Touched f g)
    (h : s.Holds f.build.phases (Phase.Fresh f.aborted)) :
    s.Holds g.build.phases (Phase.Fresh g.aborted) := by
  refine touched.holds h ?_
  rintro p q results status - ⟨none_, parked⟩
  exact ⟨results.trans none_, fun live => (status live).trans (parked (touched.live live))⟩

theorem Touched.done (touched : Touched f g)
    (h : s.Holds f.build.phases (Phase.Done f.aborted)) :
    s.Holds g.build.phases (Phase.Done g.aborted) := by
  refine touched.holds h ?_
  rintro p q results status - ⟨final, done⟩
  exact ⟨(Phase.finalResult_congr results).trans final,
    fun live => (status live).trans (done (touched.live live))⟩

theorem Touched.complete_iff (touched : Touched f g) (laid : Laid plan f.build.phases)
    {n : Nat} (at_ : plan[n]? = some s) :
    s.Holds g.build.phases (·.finalResult.isTerminal = true) ↔
      s.Holds f.build.phases (·.finalResult.isTerminal = true) := by
  constructor
  · intro complete position mem q at_q
    have lt := laid.lt_of_mem at_ mem
    rw [← touched.size] at lt
    obtain ⟨p, at_p⟩ : ∃ p, g.build.phases[position]? = some p :=
      ⟨_, List.getElem?_eq_getElem lt⟩
    rcases touched.phases position p at_p with ⟨q', at_q', results, -⟩
    obtain rfl : q' = q := Option.some.inj (at_q'.symm.trans at_q)
    rw [← Phase.finalResult_congr results]
    exact complete position mem p at_p
  · intro complete
    refine touched.holds complete ?_
    intro p q results _ _ finished
    rw [Phase.finalResult_congr results]
    exact finished

theorem Touched.onRun (touched : Touched f g) (on : OnRun plan past next f) :
    OnRun plan past next g := by
  have frame := touched.frame
  refine ⟨?_, ?_, ?_, ?_, ?_, on.laid.congr touched.size,
    fun n s hs lt => touched.done (on.done n s hs lt),
    fun n s hs le => touched.fresh (on.fresh n s hs le), touched.settles⟩
  · rw [frame]; exact on.legs
  · rw [frame]; exact on.going
  · rw [frame]; exact on.step
  · rw [frame]; exact on.count
  · rw [frame]; exact on.queue

theorem Touched.inStage (touched : Touched f g) (inside : InStage f s) : InStage g s := by
  have frame := touched.frame
  have lanes : g.lanes = f.lanes := by rw [frame]
  have chains : g.chains = f.chains := by rw [frame]
  refine ⟨(congrArg List.length lanes).trans inside.width, ?_⟩
  intro i lane position p lane_at member at_p
  rcases touched.phases position p at_p with ⟨q, at_q, results, status, -⟩
  rcases inside.fits i lane position q (lanes ▸ lane_at) member at_q with ⟨fits, final⟩
  rw [chains, Phase.finalResult_congr results]
  exact ⟨fits.congr results, fun live => (status live).trans (final (touched.live live))⟩

theorem Touched.offRun (touched : Touched f g) (off : OffRun plan f) : OffRun plan g := by
  refine ⟨off.laid.congr touched.size, ?_, touched.settles⟩
  intro n s hs
  refine touched.holds (off.finished n s hs) ?_
  intro p q _ _ finished terminal
  exact finished terminal

/-- A flow that is touched rests where it did. -/
theorem Touched.rests (touched : Touched f g) (rests : Rests plan begun f) :
    Rests plan begun g := by
  have frame := touched.frame
  cases rests with
  | setup on none_ sent within waits =>
      refine .setup ?_ none_ ?_ ?_ ?_
      · refine ⟨?_, ?_, ?_, ?_, on.laid.congr touched.size,
          fun n s hs => touched.fresh (on.fresh n s hs), touched.settles⟩
        · rw [frame]; exact on.legs
        · rw [frame]; exact on.going
        · rw [frame]; exact on.lanes
        · rw [frame]; exact on.queue
      · rw [frame]; exact sent
      · rw [frame]; exact within
      · rw [frame]; exact waits
  | run past stage on at_ last inside waits =>
      refine .run past stage (touched.onRun on) at_ last (touched.inStage inside) ?_
      rw [touched.complete_iff on.laid at_]
      exact waits
  | tearDown legs going off lanes sent within waits =>
      refine .tearDown ?_ ?_ (touched.offRun off) ?_ ?_ ?_ ?_
      · rw [frame]; exact legs
      · rw [frame]; exact going
      · rw [frame]; exact lanes
      · rw [frame]; exact sent
      · rw [frame]; exact within
      · rw [frame]; exact waits
  | finished legs ended off lanes step =>
      refine .finished ?_ ?_ (touched.offRun off) ?_ ?_
      · rw [frame]; exact legs
      · rw [frame]; exact ended
      · rw [frame]; exact lanes
      · rw [frame]; exact step

theorem Touched.refl (settles : f.AbortSettles) : Touched f f :=
  ⟨rfl, rfl, id, fun _ p at_ => ⟨p, at_, rfl, fun _ => rfl, id⟩, settles⟩

theorem Rests.settles (rests : Rests plan begun f) : f.AbortSettles := by
  cases rests with
  | setup on => exact on.settles
  | run _ _ on => exact on.settles
  | tearDown _ _ off => exact off.settles
  | finished _ _ off => exact off.settles

theorem Rests.touched_abort (rests : Rests plan begun f) (now : Moment) :
    Touched f (f.abort now).1 := by
  unfold abort
  split
  · exact .refl rests.settles
  · refine ⟨rfl, List.length_map .., fun _ => rfl, ?_, ?_⟩
    · intro position p at_
      obtain ⟨q, at_q, rfl⟩ : ∃ q, f.build.phases[position]? = some q ∧
          (if q.status.isCancellable then { q with status := .canceled } else q) = p := by
        simpa [Build.markAborted, Build.settlePhases] using at_
      refine ⟨q, at_q, ?_, nofun, ?_⟩
      · split <;> rfl
      · intro finished
        split
        · rfl
        · exact finished
    · intro _ p mem
      exact isTerminal_of_mem_settlePhases (s := .canceled) rfl mem

theorem touched_modifyPhase (settles : f.AbortSettles) (position : Nat) (patch : PhasePatch) :
    Touched f (f.modifyPhase position (·.applyContainer patch)) := by
  have phases : ∀ (i : Nat) (p : Phase),
      (f.modifyPhase position (·.applyContainer patch)).build.phases[i]? = some p →
      ∃ q, f.build.phases[i]? = some q ∧ p.runResults = q.runResults ∧ p.status = q.status := by
    intro i p at_
    simp only [modifyPhase, List.getElem?_modify] at at_
    rcases Option.map_eq_some_iff.1 at_ with ⟨q, at_q, eq⟩
    refine ⟨q, at_q, ?_⟩
    subst eq
    split <;> exact ⟨rfl, rfl⟩
  refine ⟨rfl, List.length_modify .., id, ?_, ?_⟩
  · intro i p at_
    rcases phases i p at_ with ⟨q, at_q, results, status⟩
    exact ⟨q, at_q, results, fun _ => status, fun finished => status ▸ finished⟩
  · intro aborted p mem
    rcases List.mem_iff_getElem?.1 mem with ⟨i, at_⟩
    rcases phases i p at_ with ⟨q, at_q, -, status⟩
    rw [status]
    exact settles aborted q (List.mem_of_getElem? at_q)

theorem Rests.touched_updatePhase (rests : Rests plan begun f) (e : Event) :
    Touched f (f.updatePhase e).1 := by
  unfold updatePhase
  split
  · exact .refl rests.settles
  · split
    · split
      · exact touched_modifyPhase rests.settles _ _
      · exact .refl rests.settles
    · exact .refl rests.settles

end Touched

/-! ## Events that are taken -/

/-- How a flow answers an event that it takes. -/
inductive Answered (plan : List Stage) (begun : Nat) (f : Flow) (e : Event) (now : Moment) :
    List Effect → List Stage → Flow → Prop
  | waits (leg : Leg) (t : Turn) (eq : t = f.turn leg (some e) now) (on : f.leg? = some leg)
      (fed : Fed f e now leg t) (waits : t.goesOn = false) :
      Answered plan begun f e now t.effects [] t.flow
  | passes {effects : List Effect} {started : List Stage} {g : Flow} (leg : Leg) (t : Turn)
      (eq : t = f.turn leg (some e) now) (on : f.leg? = some leg) (fed : Fed f e now leg t)
      (goesOn : t.goesOn = true)
      (passes : Passes plan begun t.flow) (lands : Lands plan begun t.flow effects started g) :
      Answered plan begun f e now (t.effects ++ effects) started g

section Answered

variable {plan : List Stage} {begun : Nat} {f : Flow} {e : Event}

theorem starting?_of_event (f : Flow) (leg : Leg) (e : Event) :
    f.starting? leg (some e) = none := by
  simp [starting?]

theorem startedBy_of_legs {leg : Leg} {rest : List Leg} {o : Option Event} (now : Moment)
    (legs : f.legs = leg :: rest) :
    f.startedBy o now = (f.starting? leg o).toList ++
      if (f.turn leg o now).goesOn = true then (f.turn leg o now).flow.startedBy none now
      else [] := by
  rw [startedBy]
  split
  · simp_all
  · rename_i leg' rest' legs'
    obtain ⟨rfl, rfl⟩ : leg' = leg ∧ rest' = rest := by simpa [legs] using legs'.symm
    rfl

theorem drive_of_legs {leg : Leg} {rest : List Leg} {o : Option Event} (now : Moment)
    (legs : f.legs = leg :: rest) :
    f.drive o now =
      if (f.turn leg o now).goesOn = true then
        (((f.turn leg o now).flow.drive none now).1,
          (f.turn leg o now).effects ++ ((f.turn leg o now).flow.drive none now).2)
      else ((f.turn leg o now).flow, (f.turn leg o now).effects) := by
  rw [drive]
  split
  · simp_all
  · rename_i leg' rest' legs'
    obtain ⟨rfl, rfl⟩ : leg' = leg ∧ rest' = rest := by simpa [legs] using legs'.symm
    rfl

/-- A turn that takes an event and goes on has sent nothing, and has left a leg or a stage. -/
theorem Fed.passing {leg : Leg} {now : Moment} {t : Turn} (fed : Fed f e now leg t)
    (goesOn : t.goesOn = true) :
    sends t.effects = [] ∧ ends t.effects = [] ∧ t.flow.minted = f.minted ∧ leg ≠ .tearDown ∧
      (t.flow.legs <:+ f.legs.tail ∨ t.flow.legs = f.legs ∧ leg = .run) := by
  cases fed with
  | dropped _ ne aborted => exact ⟨rfl, rfl, rfl, ne, .inl (List.suffix_refl _)⟩
  | adopted live success t turn =>
      cases turn with
      | sent => cases goesOn
      | left last =>
          refine ⟨rfl, rfl, ?_, by decide, .inl ?_⟩
          · simp only [Turn.behind, Turn.again, leaveLeg, adopt]
            cases e.stages <;> rfl
          · simp [Turn.behind, Turn.again, leaveLeg, clearStep]
  | refused live fails => exact ⟨rfl, rfl, rfl, by decide, .inl (List.tail_suffix _)⟩
  | phase stage rest patch lane position p live queue phase lane_at awaited place at_p fits _
      turn =>
      rcases turn.of_goesOn goesOn with ⟨silent, endless, minted, legs⟩
      exact ⟨silent, endless, minted, by decide, .inr ⟨legs, rfl⟩⟩
  | pressedOn aborted t turn => cases turn <;> cases goesOn
  | cleaned live success plain t turn => cases turn <;> cases goesOn
  | failed => cases goesOn

theorem Rests.answered (rests : Rests plan begun f) (accepted : f.accepts e = true)
    (proper : e.Proper) (now : Moment) :
    Answered (planned plan (f.loading? (.process e now))) begun f e now (f.drive (some e) now).2
        (f.startedBy (some e) now) (f.drive (some e) now).1 ∧
      Rests (planned plan (f.loading? (.process e now)))
        (begun + (f.startedBy (some e) now).length) (f.drive (some e) now).1 := by
  obtain ⟨leg, rest, legs⟩ : ∃ leg rest, f.legs = leg :: rest := by
    cases legs : f.legs with
    | cons leg rest => exact ⟨leg, rest, rfl⟩
    | nil =>
        rcases accepts_inv accepted with ⟨-, ways⟩
        simp [leg?, legs] at ways
  have on : f.leg? = some leg := by simp [leg?, legs]
  have fed : Fed f e now leg (f.turn leg (some e) now) := rests.fed legs accepted proper
  have leads := fed.leads rests legs accepted
  rw [startedBy_of_legs now legs, drive_of_legs now legs, starting?_of_event]
  cases goesOn : (f.turn leg (some e) now).goesOn with
  | false =>
      simp only [Bool.false_eq_true, if_false, Option.toList_none, List.nil_append]
      exact ⟨.waits leg _ rfl on fed goesOn, leads.2 goesOn⟩
  | true =>
      have passes := leads.1 goesOn
      rcases passes.lands now with ⟨lands, landed⟩
      simp only [if_true, Option.toList_none, List.nil_append]
      exact ⟨.passes leg _ rfl on fed goesOn passes lands, landed⟩

end Answered

/-! ## Calls -/

/-- What a call on a flow comes to that rests. -/
inductive Called (plan : List Stage) (begun : Nat) (f : Flow) (call : Call) :
    List Effect → List Stage → Flow → Prop
  | idle {effects : List Effect} {g : Flow} (touched : Touched f g) (none_ : f.loading? call = none)
      (unanswered : ∀ e now, call = .process e now → f.accepts e = false)
      (silent : sends effects = []) (endless : ends effects = []) :
      Called plan begun f call effects [] g
  | answered {effects : List Effect} {started : List Stage} {g : Flow} (e : Event) (now : Moment)
      (call_eq : call = .process e now) (accepted : f.accepts e = true)
      (answered : Answered (planned plan (f.loading? call)) begun f e now effects started g) :
      Called plan begun f call effects started g

section Called

variable {plan : List Stage} {begun : Nat} {f : Flow}

/-- The stages that a call starts are the next ones of the plan. -/
theorem Called.planned {call : Call} {effects : List Effect} {started : List Stage} {g : Flow}
    (called : Called plan begun f call effects started g) :
    ∀ (j : Nat) (s : Stage), started[j]? = some s →
      (Flow.planned plan (f.loading? call))[begun + j]? = some s := by
  cases called with
  | idle => nofun
  | answered e now call_eq accepted answered =>
      cases answered with
      | waits => nofun
      | passes leg t eq on fed goesOn passes lands => exact lands.planned

theorem Rests.begun_of_loading (rests : Rests plan begun f) {call : Call}
    {stages : List (List Phase)} (loading : f.loading? call = some stages) : begun = 0 := by
  have on : f.leg? = some .setup := by
    unfold loading? at loading
    split at loading
    · split at loading
      · rename_i h
        exact h.1
      · cases loading
    · cases loading
    · cases loading
  exact (rests.on_setup on).2

theorem loading?_of_rejected {e : Event} {now : Moment} (rejected : f.accepts e = false) :
    f.loading? (.process e now) = none := by
  simp [loading?, rejected]

theorem accepts_of_update {e : Event} (update : e.kind = .phaseUpdate) : f.accepts e = false := by
  unfold accepts
  rw [update]
  split
  · rfl
  · split <;> simp_all

theorem sends_updatePhase (f : Flow) (e : Event) :
    sends (f.updatePhase e).2 = [] ∧ ends (f.updatePhase e).2 = [] := by
  unfold updatePhase
  split
  · exact ⟨rfl, rfl⟩
  · split
    · split <;> exact ⟨rfl, rfl⟩
    · exact ⟨rfl, rfl⟩

theorem Rests.process (rests : Rests plan begun f) {e : Event} (proper : e.Proper)
    (now : Moment) :
    Called plan begun f (.process e now) (f.process e now).2 (f.started (.process e now))
        (f.process e now).1 ∧
      Rests (planned plan (f.loading? (.process e now)))
        (begun + (f.started (.process e now)).length) (f.process e now).1 := by
  have idle : ∀ (effects : List Effect) (g : Flow), Touched f g → f.accepts e = false →
      sends effects = [] → ends effects = [] →
      Called plan begun f (.process e now) effects (f.started (.process e now)) g ∧
        Rests (planned plan (f.loading? (.process e now)))
          (begun + (f.started (.process e now)).length) g := by
    intro effects g touched rejected silent endless
    have none_ : f.loading? (.process e now) = none := loading?_of_rejected rejected
    have nothing : f.started (.process e now) = [] := by simp [started, rejected]
    rw [none_, nothing]
    refine ⟨.idle touched none_ ?_ silent endless, touched.rests rests⟩
    rintro e' now' eq
    cases eq
    exact rejected
  unfold Flow.process
  split
  · rename_i ended
    exact idle _ _ (.refl rests.settles) (by simp [accepts, ended]) rfl rfl
  · split
    · rename_i update
      have effects := sends_updatePhase f e
      exact idle _ _ (rests.touched_updatePhase e) (accepts_of_update update) effects.1 effects.2
    · split
      · rename_i accepted
        rcases rests.answered accepted proper now with ⟨answered, landed⟩
        rw [started, if_pos accepted]
        exact ⟨.answered e now rfl accepted answered, landed⟩
      · rename_i rejected
        exact idle _ _ (.refl rests.settles) (by simpa using rejected) rfl rfl

/-- What a call comes to that may follow the start. -/
theorem Rests.called (rests : Rests plan begun f) {call : Call} (legal : call.Legal) :
    Called plan begun f call (f.call call).2 (f.started call) (f.call call).1 ∧
      Rests (planned plan (f.loading? call)) (begun + (f.started call).length)
        (f.call call).1 := by
  cases call with
  | start now => exact legal.elim
  | process e now => exact rests.process legal now
  | abort now =>
      have touched := rests.touched_abort now
      refine ⟨.idle touched rfl ?_ rfl rfl, touched.rests rests⟩
      rintro e now' eq
      cases eq

end Called

/-! ## Courses -/

/-- A flow as it is started. -/
theorem passes_takeOff (build : Build) (script : Option String) (chains : Chains) :
    Passes [] 0 ({ build, script, chains } : Flow).takeOff := by
  refine .setup ?_ rfl rfl rfl
  refine ⟨rfl, rfl, rfl, rfl, .inl rfl, ?_, nofun⟩
  intro n s hs
  simp at hs

end Flow

namespace Course

variable {build : Build} {script : Option String} {chains : Chains} {c : Course}

theorem begun_then_ (c : Course) (call : Call) :
    (c.then_ call).begun = c.begun ++ c.flow.started call := by
  simp [begun, then_, entry]

theorem plan_then_ (c : Course) (call : Call) :
    (c.then_ call).plan = Flow.planned c.plan (c.flow.loading? call) :=
  rfl

/-- A stage of the plan has as many positions as phases were loaded for it, and begins behind all
phases that were loaded for the stages before it. -/
theorem getElem?_plan_then_ {stages : List (List Phase)}
    (loads : c.flow.loading? call = some stages) (n : Nat) :
    (c.then_ call).plan[n]? =
      stages[n]?.map fun loaded => ⟨List.range' (stages.take n).flatten.length loaded.length⟩ := by
  rw [plan_then_, loads, Flow.planned, Option.map_some, Option.getD_some,
    Flow.getElem?_consecutive, List.getElem?_map, Option.map_map, List.length_flatten,
    ← List.map_take, Nat.zero_add]
  rfl

/-- Every flow of a course rests. -/
theorem Of.rests (of : Of build script chains c) :
    Flow.Rests c.plan c.begun.length c.flow := by
  induction of with
  | start now =>
      have landed := ((Flow.passes_takeOff build script chains).lands now).2
      rw [begun_then_, List.length_append]
      exact landed
  | step of call legal ih =>
      have landed := (ih.called legal).2
      rw [begun_then_, List.length_append]
      exact landed

theorem chains_call (f : Flow) (call : Call) : (f.call call).1.chains = f.chains := by
  cases call with
  | start now => exact (Flow.steady_drive f.takeOff none now).chains
  | process e now => exact (Flow.steady_process f e now).chains
  | abort now =>
      change (f.abort now).1.chains = f.chains
      unfold Flow.abort
      split <;> rfl

/-- The chains of a course stay. -/
theorem Of.chains_eq (of : Of build script chains c) : c.flow.chains = chains := by
  induction of with
  | start now => exact chains_call _ (.start now)
  | step of call legal ih => exact (chains_call _ call).trans ih

end Course
end BuildPipeline
