import BuildPipeline.Flow.Progress
import BuildPipeline.Proofs.Flow.Settling
import Mathlib.Algebra.GroupWithZero.Nat

/-!
Every reply that a live flow takes in, failure or success, brings it nearer to its end: it leaves a
leg, or a stage of the run, or there is less to go on the leg or stage where it is (`Flow.left`,
`Answered.lighter`). A flow that waits on nothing has ended (`Rests.over_of_idle`), and it ends with
the build that it has then, once (`Answered.ends`).
-/

namespace BuildPipeline

open Time (Moment)

/-- The number of replies that a lane may still take. -/
def Lane.toGo (providers : Nat) (lane : Lane) : Nat :=
  if lane.awaited.isSome then providers + 1 - lane.sent else 0

namespace Flow

/-- The number of replies that the leg or the stage may still take on which the flow is. -/
def toGo (f : Flow) : Nat :=
  (f.lanes.map (Lane.toGo (f.chains.count .runPhase))).sum +
    f.leg?.elim 0 fun leg => f.chains.count leg.capability - f.dispatched

/-- What is left of the way: the legs, the stages once they are loaded, and the replies that the leg
or stage may still take on which the flow is. -/
def left (f : Flow) : Nat × Nat × Nat :=
  (f.legs.length, if f.leg? = some .setup then 0 else f.stages.length, f.toGo)

theorem founded_lighter : WellFounded Lighter :=
  (Prod.lex Nat.lt_wfRel (Prod.lex Nat.lt_wfRel Nat.lt_wfRel)).wf

variable {plan : List Stage} {begun : Nat} {f g : Flow} {e : Event} {now : Moment}
  {effects : List Effect} {started : List Stage}

theorem lighter_of_legs (legs : g.legs.length < f.legs.length) : Lighter g.left f.left :=
  Prod.Lex.left _ _ legs

/-- A flow that stays on its leg and its stage. -/
theorem lighter_of_toGo (legs : g.legs = f.legs)
    (queue : f.leg? ≠ some .setup → g.stages = f.stages)
    (toGo : g.toGo < f.toGo) : Lighter g.left f.left := by
  have leg : g.leg? = f.leg? := congrArg List.head? legs
  unfold left
  rw [legs, leg]
  split
  · exact Prod.Lex.right _ (Prod.Lex.right _ toGo)
  · rename_i other
    rw [queue other]
    exact Prod.Lex.right _ (Prod.Lex.right _ toGo)

/-- A flow off set-up that has left a stage or a leg. -/
theorem lighter_of_remaining (other : f.leg? ≠ some .setup)
    (shorter : Shorter g.remaining f.remaining) : Lighter g.left f.left := by
  rcases Prod.lex_def.1 shorter with legs | ⟨legs, stages⟩
  · exact lighter_of_legs legs
  · have fewer : (if g.leg? = some .setup then 0 else g.stages.length) < f.stages.length := by
      simp only [remaining] at stages
      split <;> omega
    unfold left
    rw [show g.legs.length = f.legs.length from legs, if_neg other]
    exact Prod.Lex.right _ (Prod.Lex.left _ _ fewer)

theorem sum_modify_lt {lanes : List Lane} {i : Nat} {lane : Lane} {change : Lane → Lane}
    {weight : Lane → Nat} (at_ : lanes[i]? = some lane) (lt : weight (change lane) < weight lane) :
    ((lanes.modify i change).map weight).sum < (lanes.map weight).sum := by
  induction lanes generalizing i with
  | nil => simp at at_
  | cons head lanes ih =>
      cases i with
      | zero =>
          obtain rfl : head = lane := by simpa using at_
          simpa [List.modify_cons] using lt
      | succ i =>
          have rest := ih (i := i) (by simpa using at_)
          simp only [List.modify_succ_cons, List.map_cons, List.sum_cons]
          omega

/-- A command of a step leaves less to go. -/
theorem lighter_commanded {leg : Leg} {h : Flow} {a : Address} (on : f.leg? = some leg)
    (legs : h.legs = f.legs) (count : h.dispatched = f.dispatched) (chains : h.chains = f.chains)
    (lanes : h.lanes = f.lanes) (queue : leg ≠ .setup → h.stages = f.stages)
    (next : h.chains.address? leg.capability h.dispatched = some a) :
    Lighter h.commanded.left f.left := by
  refine lighter_of_toGo legs (fun other => queue ?_) ?_
  · rintro rfl
    exact other on
  · have more : f.dispatched < f.chains.count leg.capability := by
      rw [← chains, ← count]
      exact (List.getElem?_eq_some_iff.1 next).1
    have on' : h.commanded.leg? = some leg := (congrArg List.head? legs).trans on
    unfold toGo
    rw [on, on', show h.commanded.lanes = f.lanes from lanes,
      show h.commanded.chains = f.chains from chains,
      show h.commanded.dispatched = f.dispatched + 1 from congrArg (· + 1) count]
    simp only [Option.elim_some]
    omega

/-- A reply to a phase leaves less to go on its lane. -/
theorem lighter_replied {i position minted : Nat} {lane : Lane} {phase : Phase → Phase}
    {change : Lane → Lane} (lane_at : f.lanes[i]? = some lane)
    (less : (change lane).toGo (f.chains.count .runPhase) <
      lane.toGo (f.chains.count .runPhase)) :
    Lighter (f.replied e i position phase change minted).left f.left := by
  refine lighter_of_toGo rfl (fun _ => rfl) ?_
  exact Nat.add_lt_add_right (sum_modify_lt lane_at less) _

theorem toGo_pos {providers : Nat} {lane : Lane} {p : Phase} {token : Token}
    (fits : lane.Fits providers p) (waits : lane.awaited = some token) :
    0 < lane.toGo providers := by
  have := fits.sent_le
  simp only [Lane.toGo, waits, Option.isSome_some, if_true]
  omega

theorem Settled.lighter {h : Flow} {patch : PhasePatch} {lane : Lane} {position : Nat} {p : Phase}
    {sent : List (Address × Command)} (settled : Settled f e patch position p lane h sent)
    (lane_at : f.lanes[patch.index]? = some lane) (awaited : lane.awaited = some e.token)
    (fits : lane.Fits (f.chains.count .runPhase) p) : Lighter h.left f.left := by
  have pos := toGo_pos fits awaited
  cases settled with
  | failed => exact lighter_replied lane_at pos
  | last => exact lighter_replied lane_at pos
  | next a success next =>
      refine lighter_replied lane_at ?_
      have more : lane.sent < f.chains.count .runPhase := (List.getElem?_eq_some_iff.1 next).1
      simp only [Lane.toGo, Lane.command, awaited, Option.isSome_some, if_true]
      omega

theorem TornDown.lighter {h : Flow} {t : Turn} (turn : TornDown h now t)
    (on : f.leg? = some .tearDown) (legs : h.legs = f.legs) (count : h.dispatched = f.dispatched)
    (chains : h.chains = f.chains) (lanes : h.lanes = f.lanes) (queue : h.stages = f.stages) :
    Lighter t.flow.left f.left := by
  have some_ : 0 < f.legs.length := List.length_pos_of_mem (List.mem_of_mem_head? on)
  cases turn with
  | sent a next => exact lighter_commanded on legs count chains lanes (fun _ => queue) next
  | complete => exact lighter_of_legs some_
  | ended => exact lighter_of_legs some_

/-- A turn that takes an event in and waits leaves less to go. -/
theorem Fed.lighter {leg : Leg} {t : Turn} (fed : Fed f e now leg t) (live : f.aborted = false)
    (on : f.leg? = some leg) (waits : t.goesOn = false) : Lighter t.flow.left f.left := by
  cases fed with
  | dropped => cases waits
  | adopted _ success t turn =>
      cases turn with
      | left => cases waits
      | sent a next =>
          rcases adopt_frame f.clearStep e with ⟨legs, count, chains, -⟩
          have lanes : (f.clearStep.adopt e).lanes = f.lanes := by
            unfold Flow.adopt
            cases e.stages <;> rfl
          exact lighter_commanded on legs count chains lanes (fun ne => absurd rfl ne) next
  | refused => cases waits
  | phase stage rest patch lane position p _ queue phase lane_at awaited place at_ fits t turn =>
      exact (turn.of_waits waits).1.lighter lane_at awaited fits
  | pressedOn aborted =>
      rw [live] at aborted
      cases aborted
  | cleaned _ success plain t turn =>
      rw [adopt_of_plain _ plain] at turn
      exact turn.lighter on rfl rfl rfl rfl rfl
  | failed =>
      apply lighter_of_legs
      exact List.length_pos_of_mem (List.mem_of_mem_head? on)

/-- Every event that a live flow takes in brings it nearer to its end. -/
theorem Answered.lighter (answered : Answered plan begun f e now effects started g)
    (live : f.aborted = false) (landed : g = (f.drive (some e) now).1) : Lighter g.left f.left := by
  cases answered with
  | waits leg t eq on fed waits => exact fed.lighter live on waits
  | passes leg t eq on fed goesOn passes lands =>
      obtain ⟨rest, legs⟩ : ∃ rest, f.legs = leg :: rest := List.head?_eq_some_iff.1 on
      have some_ : f.legs ≠ [] := by simp [legs]
      have goesOn' := goesOn
      rw [eq] at goesOn'
      rw [drive_of_legs now legs, if_pos goesOn'] at landed
      have landed' : g = (t.flow.drive none now).1 := by rw [landed, eq]
      have onwards : NoLonger g t.flow := by
        rw [landed']
        exact noLonger_drive rfl
      have turned : Shorter t.flow.remaining f.remaining := by
        rw [eq]
        exact turn_goesOn_lt some_ goesOn'
      have shorter := onwards.shorter turned
      by_cases setup : leg = .setup
      · rcases fed.passing goesOn with ⟨-, -, -, -, way⟩
        have behind : t.flow.legs.length < f.legs.length := by
          rcases way with shorter | ⟨-, run⟩
          · have := shorter.length_le
            rw [legs] at this ⊢
            exact Nat.lt_succ_of_le this
          · rw [setup] at run
            cases run
        have further : g.legs.length ≤ t.flow.legs.length := by
          rcases onwards with fewer | ⟨same, -⟩
          · exact Nat.le_of_lt fewer
          · exact Nat.le_of_eq same
        exact lighter_of_legs (Nat.lt_of_le_of_lt further behind)
      · refine lighter_of_remaining (fun on' => setup ?_) shorter
        exact Option.some.inj (on.symm.trans on')

/-! ## The end -/

theorem mem_outstanding {t : Token} :
    t ∈ f.outstanding ↔ f.pendingStep = some t ∨ ∃ lane ∈ f.lanes, lane.awaited = some t := by
  unfold outstanding
  rw [List.mem_mergeSort, List.mem_append, List.mem_filterMap, Option.mem_toList]

/-- A flow that rests and waits on nothing has ended. -/
theorem Rests.over_of_idle (rests : Rests plan begun f) (idle : f.outstanding = []) :
    f.ended = true := by
  have quiet : ∀ t, ¬(f.pendingStep = some t ∨ ∃ lane ∈ f.lanes, lane.awaited = some t) := by
    intro t waits
    rw [← mem_outstanding, idle] at waits
    cases waits
  cases rests with
  | setup _ _ _ _ waits => exact absurd (.inl waits) (quiet _)
  | run past stage on at_ last inside waits =>
      refine absurd ((inside.complete_iff fun position mem => on.laid.lt_of_mem at_ mem).2 ?_) waits
      intro lane mem
      cases awaited : lane.awaited with
      | none => rfl
      | some t => exact absurd (.inr ⟨lane, mem, awaited⟩) (quiet t)
  | tearDown _ _ _ _ _ _ waits => exact absurd (.inl waits) (quiet _)
  | finished _ ended => exact ended

/-- The build that a flow ends with, if it has ended. -/
def result (f : Flow) : List Build :=
  if f.ended then [f.build] else []

theorem result_of_going (going : f.ended = false) : f.result = [] := by
  simp [result, going]

/-- A flow ends once, so a build that it tells to have ended with is the only one. -/
theorem ending_finish {b : Build} {ended : Option Build}
    (ending : ended.toList ++ BuildPipeline.ends (.finish b :: effects) = f.result) :
    (some b).toList ++ BuildPipeline.ends effects = f.result := by
  rw [ends_finish] at ending
  cases ended with
  | none => exact ending
  | some other =>
      exfalso
      have length := congrArg List.length ending
      unfold result at length
      split at length <;> simp at length

theorem Passes.going (passes : Passes plan begun f) : f.ended = false := by
  cases passes with
  | setup on => exact on.going
  | run on => exact on.going
  | cut _ going => exact going
  | tearDown _ going => exact going

theorem Lands.ends (lands : Lands plan begun f effects started g) :
    BuildPipeline.ends effects = g.result := by
  cases lands with
  | @step done started h leg ne a between =>
      have going : h.commanded.ended = false := between.passes.going
      rw [result_of_going going, ends_append, between.endless]
      rfl
  | @stage done started h s a between live on at_ some_ head =>
      rcases on.startStage live at_ (between.steady.chains ▸ head) with ⟨fan, onStage, -⟩
      rw [result_of_going onStage.going, ends_append, between.endless, effects_startStage,
        ends_append, fan.endless]
      rfl
  | finished build effects between on silent endless =>
      rw [ends_append, ends_append, between.endless, endless]
      rfl

theorem TornDown.ends {t : Turn} (turn : TornDown f now t) (going : f.ended = false) :
    BuildPipeline.ends t.effects = t.flow.result := by
  cases turn with
  | sent a next =>
      have going' : f.commanded.ended = false := going
      exact (result_of_going going').symm
  | complete => rfl
  | ended => rfl

theorem Fed.ends {leg : Leg} {t : Turn} (fed : Fed f e now leg t) (going : f.ended = false)
    (waits : t.goesOn = false) : BuildPipeline.ends t.effects = t.flow.result := by
  cases fed with
  | dropped => cases waits
  | adopted _ success t turn =>
      cases turn with
      | left => cases waits
      | sent a next =>
          have going' : (f.clearStep.adopt e).commanded.ended = false := by
            unfold Flow.adopt
            cases e.stages <;> exact going
          exact (result_of_going going').symm
  | refused => cases waits
  | phase stage rest patch lane position p _ queue phase lane_at awaited place at_ fits t turn =>
      rcases turn.of_waits waits with ⟨settled, endless⟩
      rcases settled.frame with ⟨-, -, -, -, ended, -⟩
      rw [endless]
      exact (result_of_going (ended.trans going)).symm
  | pressedOn aborted t turn =>
      have told := turn.ends going
      exact told
  | cleaned _ success plain t turn =>
      rw [adopt_of_plain _ plain] at turn ⊢
      have told := turn.ends going
      exact told
  | failed => rfl

/-- A flow tells the build that it ends with when it ends, and no build before. -/
theorem Answered.ends (answered : Answered plan begun f e now effects started g)
    (going : f.ended = false) : BuildPipeline.ends effects = g.result := by
  cases answered with
  | waits leg t eq on fed waits => exact fed.ends going waits
  | passes leg t eq on fed goesOn passes lands =>
      rw [ends_append, (fed.passing goesOn).2.1, lands.ends]
      rfl

end Flow
end BuildPipeline
