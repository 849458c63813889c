import BuildPipeline.Proofs.Flow.Alike
import BuildPipeline.Proofs.Flow.Settling

/-!
Replies to different phases of a stage commute. What a reply says about its phase is taken in first
(`settle`), and then the stage is looked at and the flow goes on (`proceed`). As long as another
phase is waited on, the look changes nothing, so of two replies only the later one goes on, and what
they say is taken in to the same effect in either order (`settle_comm`, `InStage.commutes`).
-/

namespace BuildPipeline

open Time (Moment)

namespace Flow

/-- What a reply says about its phase is taken in. -/
def settle (f : Flow) (e : Event) (patch : PhasePatch) (position : Nat) : Flow :=
  if e.isSuccess then
    if f.chains.count .runPhase ≤ f.sent patch.index then f.behindLast e patch position
    else f.behindNext e patch position
  else f.behindFailure e patch position

/-- The running stage is looked at, and the flow goes on if the stage is over. The stages that are
started then are told, too. -/
def proceed (f : Flow) (stage : Stage) (now : Moment) : Flow × List Stage :=
  if (f.checkStage stage).goesOn = true then
    (((f.checkStage stage).flow.drive none now).1, (f.checkStage stage).flow.startedBy none now)
  else ((f.checkStage stage).flow, [])

theorem Alike.proceed {f g : Flow} (alike : Alike f g) (stage : Stage) (now : Moment) :
    Alike (f.proceed stage now).1 (g.proceed stage now).1 ∧
      (f.proceed stage now).2 = (g.proceed stage now).2 := by
  have checked := alike.checkStage stage
  unfold Flow.proceed
  by_cases goesOn : (g.checkStage stage).goesOn = true
  · rw [if_pos goesOn, if_pos (checked.goesOn.trans goesOn)]
    exact checked.flow.drive none now
  · rw [if_neg goesOn, if_neg (checked.goesOn ▸ goesOn)]
    exact ⟨checked.flow, rfl⟩

/-! ## Two replies -/

section Replies

variable {f g : Flow} {e e' : Event} {patch patch' : PhasePatch} {i j position other : Nat}

theorem bare_replied (phase : Phase → Phase) (change : Lane → Lane) (minted : Nat) :
    (f.replied e i position phase change minted).build.bare =
      { f.build.bare with phases := f.build.phases.modify position phase } := by
  unfold Flow.replied adoptChild
  cases e.childRepository <;> rfl

/-- What two replies change may be changed in either order. -/
theorem alike_replied_comm (apart : i ≠ j) (away : position ≠ other) {phase phase' : Phase → Phase}
    {change later change' later' : Lane → Lane} {bare bare' : Nat × Bool → Nat × Bool}
    (bares : ∀ lane, (change lane).bare = bare lane.bare)
    (bares_later : ∀ lane, (later lane).bare = bare lane.bare)
    (bares' : ∀ lane, (change' lane).bare = bare' lane.bare)
    (bares_later' : ∀ lane, (later' lane).bare = bare' lane.bare) (k l m n : Nat) :
    Alike ((f.replied e i position phase change k).replied e' j other phase' later' l)
      ((f.replied e' j other phase' change' m).replied e i position phase later n) := by
  refine ⟨?_, rfl, rfl, rfl, rfl, rfl, ?_, rfl, rfl⟩
  · have phases : (f.replied e i position phase change k).build.phases.modify other phase' =
        (f.replied e' j other phase' change' m).build.phases.modify position phase :=
      List.modify_modify_ne _ _ _ away
    rw [bare_replied, bare_replied, phases, bare_replied, bare_replied]
  · have lanes : ((f.lanes.modify i change).modify j later').map Lane.bare =
        ((f.lanes.modify j change').modify i later).map Lane.bare := by
      rw [map_modify_bare _ _ bares_later', map_modify_bare _ _ bares,
        map_modify_bare _ _ bares_later, map_modify_bare _ _ bares',
        List.modify_modify_ne _ _ _ apart]
    exact lanes

/-- What a reply changes, tokens apart, is told by the reply and by how many commands were sent. -/
theorem settle_replied (f : Flow) (e : Event) (patch : PhasePatch) (position : Nat) :
    ∃ (phase : Phase → Phase) (bare : Nat × Bool → Nat × Bool), ∀ g : Flow, g.chains = f.chains →
      g.sent patch.index = f.sent patch.index → ∃ change minted,
        g.settle e patch position = g.replied e patch.index position phase change minted ∧
          ∀ lane, (change lane).bare = bare lane.bare := by
  cases success : e.isSuccess with
  | false =>
      refine ⟨failedRun, fun lane => (lane.1, false), fun g _ _ => ⟨clearedLane, g.minted, ?_, ?_⟩⟩
      · simp [settle, success, behindFailure]
      · exact fun _ => rfl
  | true =>
      by_cases last : f.chains.count .runPhase ≤ f.sent patch.index
      · refine ⟨settledRun patch, fun lane => (lane.1, false), fun g chains sent =>
          ⟨clearedLane, g.minted, ?_, fun _ => rfl⟩⟩
        rw [← chains, ← sent] at last
        simp [settle, success, last, behindLast]
      · refine ⟨nextRun patch, fun lane => (lane.1 + 1, true), fun g chains sent =>
          ⟨(Lane.command · g.nextToken), g.minted + 1, ?_, fun _ => rfl⟩⟩
        rw [← chains, ← sent] at last
        simp [settle, success, last, behindNext]

theorem sent_replied (apart : i ≠ j) (phase : Phase → Phase) (change : Lane → Lane)
    (minted : Nat) : (f.replied e i position phase change minted).sent j = f.sent j := by
  unfold sent progress? Flow.replied
  rw [List.getElem?_modify_ne _ _ apart]

/-- Replies to different phases are taken in to the same effect in either order. -/
theorem settle_comm (f : Flow) (e e' : Event) (apart : patch.index ≠ patch'.index)
    (away : position ≠ other) :
    Alike ((f.settle e patch position).settle e' patch' other)
      ((f.settle e' patch' other).settle e patch position) := by
  rcases settle_replied f e patch position with ⟨phase, bare, settles⟩
  rcases settle_replied f e' patch' other with ⟨phase', bare', settles'⟩
  rcases settles f rfl rfl with ⟨change, k, first, bares⟩
  rcases settles' f rfl rfl with ⟨change', m, first', bares'⟩
  obtain ⟨later', l, second', bares_later'⟩ :=
    settles' (f.settle e patch position) (by rw [first]; rfl)
      (by rw [first, sent_replied apart])
  obtain ⟨later, n, second, bares_later⟩ :=
    settles (f.settle e' patch' other) (by rw [first']; rfl)
      (by rw [first', sent_replied (Ne.symm apart)])
  rw [second', second, first, first']
  exact alike_replied_comm apart away bares bares_later bares' bares_later' k l m n

end Replies

/-! ## Replies to a running stage -/

section Stage

variable {plan : List Stage} {past : Nat} {f : Flow} {stage : Stage} {e e' : Event}
  {patch patch' : PhasePatch} {lane lane' : Lane} {token : Token}

theorem Settled.eq_settle {h : Flow} {position : Nat} {p : Phase} {sent : List (Address × Command)}
    (settled : Settled f e patch position p lane h sent)
    (lane_at : f.lanes[patch.index]? = some lane) : h = f.settle e patch position := by
  cases settled with
  | failed fails => simp [settle, fails]
  | last success sent =>
      have all : f.chains.count .runPhase ≤ f.sent patch.index := by
        rw [sent_of_lane lane_at]
        exact Nat.le_of_eq sent.symm
      simp [settle, success, all]
  | next a success next =>
      have more : ¬f.chains.count .runPhase ≤ f.sent patch.index := by
        rw [sent_of_lane lane_at]
        exact Nat.not_le.2 (List.getElem?_eq_some_iff.1 next).1
      simp [settle, success, more]

/-- The turn that takes a reply to a phase is the check of the stage behind what the reply says. -/
theorem InStage.taken (inside : InStage f stage) (on : OnRun plan past (past + 1) f)
    (live : f.aborted = false) (at_ : plan[past]? = some stage) (phase : e.phase = some patch)
    (lane_at : f.lanes[patch.index]? = some lane) (waits : lane.awaited = some e.token) :
    ∃ position p sent, stage.members[patch.index]? = some position ∧
      Settled f e patch position p lane (f.settle e patch position) sent ∧
      (f.runTurn (some e)).flow = ((f.settle e patch position).checkStage stage).flow ∧
      (f.runTurn (some e)).goesOn = ((f.settle e patch position).checkStage stage).goesOn := by
  rcases inside.phaseTurn on at_ phase lane_at waits with ⟨position, p, place, at_p, fits, turn⟩
  rcases turn.settled with ⟨h, told, settled, -, -, eq⟩ | ⟨h, a, c, settled, lanes, eq⟩
  · obtain rfl := settled.eq_settle lane_at
    rw [eq]
    exact ⟨position, p, [], place, settled, rfl, rfl⟩
  · rcases settled.onStage waits on live at_ inside lane_at place with ⟨onRun, inside'⟩
    have commanded : h.lanes[patch.index]? = some (Lane.command lane f.nextToken) := by
      simp [lanes, lane_at]
    have open_ := inside'.not_complete onRun at_ commanded rfl
    obtain rfl := settled.eq_settle lane_at
    refine ⟨position, p, _, place, settled, ?_⟩
    rw [eq, checkStage_of_incomplete open_]
    exact ⟨rfl, rfl⟩

/-- A reply to a phase of the running stage is taken in, and then the stage is looked at. -/
theorem InStage.settles (inside : InStage f stage) (on : OnRun plan past (past + 1) f)
    (live : f.aborted = false) (at_ : plan[past]? = some stage) (phase : e.phase = some patch)
    (lane_at : f.lanes[patch.index]? = some lane) (waits : lane.awaited = some e.token)
    (now : Moment) :
    ∃ position p sent, stage.members[patch.index]? = some position ∧
      Settled f e patch position p lane (f.settle e patch position) sent ∧
      (f.drive (some e) now).1 = ((f.settle e patch position).proceed stage now).1 ∧
      f.startedBy (some e) now = ((f.settle e patch position).proceed stage now).2 := by
  obtain ⟨position, p, sent, place, settled, flow, goesOn⟩ :=
    inside.taken on live at_ phase lane_at waits
  have whole : f.turn .run (some e) now = f.runTurn (some e) := turn_of_live live
  refine ⟨position, p, sent, place, settled, ?_⟩
  rw [drive_of_legs now on.legs, startedBy_of_legs now on.legs, whole, starting?_of_event, flow,
    goesOn, Flow.proceed]
  split <;> exact ⟨rfl, rfl⟩

/-- While a sibling is waited on, a reply to a phase goes no further than the phase. -/
theorem InStage.stays (inside : InStage f stage) (on : OnRun plan past (past + 1) f)
    (live : f.aborted = false) (at_ : plan[past]? = some stage) (phase : e.phase = some patch)
    (lane_at : f.lanes[patch.index]? = some lane) (waits : lane.awaited = some e.token)
    {i : Nat} (apart : i ≠ patch.index) (sibling : f.lanes[i]? = some lane')
    (waits' : lane'.awaited = some token) (now : Moment) :
    ∃ position p sent, stage.members[patch.index]? = some position ∧
      Settled f e patch position p lane (f.settle e patch position) sent ∧
      OnRun plan past (past + 1) (f.settle e patch position) ∧
      InStage (f.settle e patch position) stage ∧
      (f.drive (some e) now).1 = f.settle e patch position ∧ f.startedBy (some e) now = [] := by
  obtain ⟨position, p, sent, place, settled, drive, started⟩ :=
    inside.settles on live at_ phase lane_at waits now
  rcases settled.onStage waits on live at_ inside lane_at place with ⟨onRun, inside'⟩
  rcases settled.frame with ⟨-, -, -, -, -, -, lanes⟩
  have open_ := inside'.not_complete onRun at_ ((lanes i apart).trans sibling) waits'
  have stops : (f.settle e patch position).proceed stage now =
      (f.settle e patch position, []) := by
    unfold Flow.proceed
    rw [checkStage_of_incomplete open_]
    rfl
  rw [stops] at drive started
  exact ⟨position, p, sent, place, settled, onRun, inside', drive, started⟩

/-- Replies to different phases of the running stage commute. -/
theorem InStage.commutes (inside : InStage f stage) (on : OnRun plan past (past + 1) f)
    (live : f.aborted = false) (at_ : plan[past]? = some stage) (phase : e.phase = some patch)
    (lane_at : f.lanes[patch.index]? = some lane) (waits : lane.awaited = some e.token)
    (phase' : e'.phase = some patch') (lane_at' : f.lanes[patch'.index]? = some lane')
    (waits' : lane'.awaited = some e'.token) (apart : patch.index ≠ patch'.index) (now : Moment) :
    Alike ((f.drive (some e) now).1.drive (some e') now).1
        ((f.drive (some e') now).1.drive (some e) now).1 ∧
      (f.drive (some e) now).1.startedBy (some e') now =
        (f.drive (some e') now).1.startedBy (some e) now := by
  obtain ⟨position, p, _, place, settled, onRun, inside', drive, -⟩ :=
    inside.stays on live at_ phase lane_at waits (Ne.symm apart) lane_at' waits' now
  obtain ⟨other, q, _, place', settled', onRun', inside'', drive', -⟩ :=
    inside.stays on live at_ phase' lane_at' waits' apart lane_at waits now
  rcases settled.frame with ⟨-, -, -, aborted, -, -, lanes⟩
  rcases settled'.frame with ⟨-, -, -, aborted', -, -, lanes'⟩
  have away : position ≠ other := by
    rintro rfl
    have nodup := on.laid.nodup at_
    exact apart ((List.getElem?_inj (List.getElem?_eq_some_iff.1 place).1 nodup).1
      (place.trans place'.symm))
  obtain ⟨other', _, _, here', -, second, started⟩ := inside'.settles onRun (aborted.trans live) at_
    phase' ((lanes _ (Ne.symm apart)).trans lane_at') waits' now
  obtain ⟨position', _, _, here, -, second', started'⟩ := inside''.settles onRun'
    (aborted'.trans live) at_ phase ((lanes' _ apart).trans lane_at) waits now
  obtain rfl : other = other' := Option.some.inj (place'.symm.trans here')
  obtain rfl : position = position' := Option.some.inj (place.symm.trans here)
  rw [drive, drive', second, started, second', started']
  exact (settle_comm f e e' apart away).proceed stage now

end Stage

end Flow
end BuildPipeline
