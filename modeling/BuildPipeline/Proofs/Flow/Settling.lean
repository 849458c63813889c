import BuildPipeline.Proofs.Flow.Growth

/-!
What a reply does to the running stage. The phase that the reply answers settles (`Settled`); the
stage then stays open, or is done and leaves the queue, or is over with a setback and cuts the run
(`Followed`). Whatever comes behind that in the same call leaves the phases of the stage alone
(`Followed.phases`).
-/

namespace BuildPipeline

open Time (Moment)

namespace Flow

/-- What becomes, in the same call, of a flow `h` in which a phase has settled, with some commands
that go out for the phase. -/
inductive Followed (plan : List Stage) (past : Nat) (stage : Stage) (h : Flow)
    (sent : List (Address × Command)) : List Effect → List Stage → Flow → Prop
  | waits (effects : List Effect) (sends : sends effects = sent)
      (incomplete : ¬stage.Holds h.build.phases (·.finalResult.isTerminal = true)) :
      Followed plan past stage h sent effects [] h
  | passes {done effects : List Effect} {started : List Stage} {g : Flow}
      (done_ : stage.Holds h.build.phases (·.finalResult = .done)) (silent : sends done = [])
      (passes : Passes plan (past + 1) { h with stages := h.stages.tail })
      (lands : Lands plan (past + 1) { h with stages := h.stages.tail } effects started g) :
      Followed plan past stage h sent (done ++ effects) started g
  | cuts {done effects : List Effect} {started : List Stage} {g : Flow}
      (complete : stage.Holds h.build.phases (·.finalResult.isTerminal = true))
      (failed : ¬stage.Holds h.build.phases (·.finalResult = .done)) (silent : sends done = [])
      (passes : Passes plan (past + 1)
        { h with build := canceledAt h.build (h.stages.tail.flatMap (·.members)), stages := [] })
      (lands : Lands plan (past + 1)
        { h with build := canceledAt h.build (h.stages.tail.flatMap (·.members)), stages := [] }
        effects started g) :
      Followed plan past stage h sent (done ++ effects) started g

/-- A reply that a flow takes in while it is on the run: the phase that it answers, and what it
comes to. -/
structure Reply (plan : List Stage) (past : Nat) (f : Flow) (stage : Stage) (e : Event)
    (effects : List Effect) (started : List Stage) (g : Flow) (patch : PhasePatch) (lane : Lane)
    (position : Nat) (p : Phase) (h : Flow) (sent : List (Address × Command)) : Prop where
  phase : e.phase = some patch
  lane_at : f.lanes[patch.index]? = some lane
  awaited : lane.awaited = some e.token
  place : stage.members[patch.index]? = some position
  at_ : f.build.phases[position]? = some p
  fits : lane.Fits (f.chains.count .runPhase) p
  settled : Settled f e patch position p lane h sent
  onRun : OnRun plan past (past + 1) h
  inside : InStage h stage
  followed : Followed plan past stage h sent effects started g

section Reply

variable {plan : List Stage} {past position : Nat} {f g h : Flow} {stage : Stage} {e : Event}
  {now : Moment} {effects : List Effect} {started : List Stage} {patch : PhasePatch} {lane : Lane}
  {p : Phase} {sent : List (Address × Command)}

/-- What the check behind a reply comes to. -/
theorem Followed.of_checked {t : Turn} (checked : Checked h stage t)
    (done : List Effect) (silent : sends done = []) (begun : Nat) (last : begun = past + 1)
    (answered : t.goesOn = false ∧ effects = done ++ t.effects ∧ started = [] ∧ g = t.flow ∨
      t.goesOn = true ∧ Passes plan begun t.flow ∧ ∃ more, effects = done ++ t.effects ++ more ∧
        Lands plan begun t.flow more started g) :
    Followed plan past stage h [] effects started g := by
  subst last
  cases checked with
  | waits incomplete =>
      rcases answered with ⟨-, rfl, rfl, rfl⟩ | ⟨goesOn, -⟩
      · exact .waits _ (by simp [silent, Turn.wait]) incomplete
      · cases goesOn
  | passed done_ =>
      rcases answered with ⟨waits, -⟩ | ⟨-, passes, more, rfl, lands⟩
      · cases waits
      · exact .passes done_ (by simp [silent, Turn.again]) passes lands
  | cut complete failed =>
      rcases answered with ⟨waits, -⟩ | ⟨-, passes, more, rfl, lands⟩
      · cases waits
      · exact .cuts complete failed (by simp [silent, Turn.again]) passes lands

/-- What a flow on the run makes of an event that it takes in. -/
theorem Answered.reply (answered : Answered plan (past + 1) f e now effects started g)
    (on : OnRun plan past (past + 1) f) (live : f.aborted = false)
    (at_ : plan[past]? = some stage) (inside : InStage f stage) :
    ∃ patch lane position p h sent,
      Reply plan past f stage e effects started g patch lane position p h sent := by
  have leg : f.leg? = some .run := leg?_of_legs on.legs
  have reply : ∀ {t : Turn}, Fed f e now .run t →
      (t.goesOn = false ∧ effects = t.effects ∧ started = [] ∧ g = t.flow ∨
        t.goesOn = true ∧ Passes plan (past + 1) t.flow ∧ ∃ more, effects = t.effects ++ more ∧
          Lands plan (past + 1) t.flow more started g) →
      ∃ patch lane position p h sent,
        Reply plan past f stage e effects started g patch lane position p h sent := by
    intro t fed outcome
    cases fed with
    | dropped _ _ aborted =>
        rw [live] at aborted
        cases aborted
    | phase stage' _ patch lane position p _ queue phase lane_at awaited place at_p fits _ turn =>
        obtain rfl : stage = stage' := by
          rw [on.stages_eq at_] at queue
          exact (List.cons.inj queue).1
        rcases turn.settled with ⟨h, told, settled, silent, -, rfl⟩ | ⟨h, a, c, settled, lanes, rfl⟩
        · rcases settled.onStage awaited on live at_ inside lane_at place with ⟨onRun, inside⟩
          exact ⟨patch, lane, position, p, h, [], phase, lane_at, awaited, place, at_p, fits,
            settled, onRun, inside,
            .of_checked (checked h stage) told silent (past + 1) rfl outcome⟩
        · rcases settled.onStage awaited on live at_ inside lane_at place with ⟨onRun, inside⟩
          have commanded : h.lanes[patch.index]? = some (Lane.command lane f.nextToken) := by
            simp [lanes, lane_at]
          rcases outcome with ⟨-, rfl, rfl, rfl⟩ | ⟨goesOn, -⟩
          · exact ⟨patch, lane, position, p, _, _, phase, lane_at, awaited, place, at_p, fits,
              settled, onRun, inside, .waits _ rfl (inside.not_complete onRun at_ commanded rfl)⟩
          · cases goesOn
  cases answered with
  | waits _ t eq on' fed waits =>
      cases leg.symm.trans on'
      exact reply fed (.inl ⟨waits, rfl, rfl, rfl⟩)
  | passes _ t eq on' fed goesOn passes lands =>
      cases leg.symm.trans on'
      exact reply fed (.inr ⟨goesOn, passes, _, rfl, lands⟩)

/-- What follows a reply leaves the phases of its stage alone. -/
theorem Followed.phases (followed : Followed plan past stage h sent effects started g)
    (laid : Laid plan h.build.phases) (at_ : plan[past]? = some stage)
    (queue : h.stages = plan.drop past) {position : Nat} (mem : position ∈ stage.members) :
    g.build.phases[position]? = h.build.phases[position]? := by
  have apart : ∀ (n : Nat) (s : Stage), plan[n]? = some s → n ≠ past → position ∉ s.members := by
    intro n s hs ne here
    exact laid.ne_of_stages hs at_ ne here mem rfl
  have out : ∀ {started : List Stage},
      (∀ (j : Nat) (s : Stage), started[j]? = some s → plan[past + 1 + j]? = some s) →
      ∀ s ∈ started, position ∉ s.members := by
    intro started planned s here
    rcases List.mem_iff_getElem?.1 here with ⟨j, at_j⟩
    exact apart _ s (planned j s at_j) (by omega)
  cases followed with
  | waits => rfl
  | passes done_ silent passes lands => exact lands.phases (out lands.planned)
  | cuts complete failed silent passes lands =>
      rw [lands.phases (out lands.planned), getElem?_canceledAt]
      have spared : position ∉ h.stages.tail.flatMap (·.members) := by
        intro canceled
        rcases List.mem_flatMap.1 canceled with ⟨s, queued, here⟩
        rw [queue, List.tail_drop] at queued
        rcases List.mem_iff_getElem?.1 queued with ⟨j, at_j⟩
        rw [List.getElem?_drop] at at_j
        exact apart _ s at_j (by omega) here
      simp only [spared, if_false, Option.map_id']

theorem finalResult_settledRun (patch : PhasePatch) {token : Token} {providers : Nat}
    (fits : lane.Fits providers p) (awaited : lane.awaited = some token) :
    (settledRun patch p).finalResult = .done := by
  cases fits with
  | pending _ _ sent within results =>
      have passed : (settledRun patch p).runResults = List.replicate (lane.sent - 1 + 1) .done :=
        runResults_passedRun patch results
      exact Phase.finalResult_of_passed (Nat.succ_pos _) passed
  | passed none_ => rw [none_] at awaited; cases awaited
  | failed none_ => rw [none_] at awaited; cases awaited

theorem finalResult_failedRun {token : Token} {providers : Nat} (fits : lane.Fits providers p)
    (awaited : lane.awaited = some token) : (failedRun p).finalResult = .failed := by
  cases fits with
  | pending _ _ sent within results =>
      exact Phase.finalResult_of_failed (Phase.runResults_finishRun_of_pending .failed results)
  | passed none_ => rw [none_] at awaited; cases awaited
  | failed none_ => rw [none_] at awaited; cases awaited

section Outcome

variable (reply : Reply plan past f stage e effects started g patch lane position p h sent)
  (at_stage : plan[past]? = some stage)

include reply

theorem Reply.waits_of_awaited {i : Nat} {token : Token} (at_stage : plan[past]? = some stage)
    (awaited : h.awaited? i = some token) : g = h ∧ started = [] ∧ sends effects = sent := by
  rcases Option.bind_eq_some_iff.1 awaited with ⟨lane', lane_at, awaited⟩
  have open_ := reply.inside.not_complete reply.onRun at_stage lane_at awaited
  cases reply.followed with
  | waits _ sends incomplete => exact ⟨rfl, rfl, sends⟩
  | passes done_ => exact absurd (done_.mono fun p final => by rw [final]; rfl) open_
  | cuts complete => exact absurd complete open_

include at_stage

/-- A phase of the stage is behind the call as it is behind the reply. -/
theorem Reply.phases {position' : Nat} (mem : position' ∈ stage.members) :
    g.build.phases[position']? = h.build.phases[position']? :=
  reply.followed.phases reply.onRun.laid at_stage reply.onRun.queue mem

theorem Reply.of_success (success : e.isSuccess = true) :
    (lane.sent < f.chains.count .runPhase →
      ∃ a, f.chains.address? .runPhase lane.sent = some a ∧
        g = f.behindNext e patch position ∧ started = [] ∧
        sends effects = [(a, .runPhase f.nextToken (f.behindNext e patch position).build
          (nextRun patch p))]) ∧
      (f.chains.count .runPhase ≤ lane.sent →
        g.build.phases[position]? = some (settledRun patch p)) := by
  have same := reply.phases at_stage (List.mem_of_getElem? reply.place)
  cases reply.settled with
  | failed fails =>
      rw [success] at fails
      cases fails
  | last _ all =>
      refine ⟨fun more => absurd all (Nat.ne_of_lt more), fun _ => ?_⟩
      rw [same]
      simp [behindLast, replied, reply.at_]
  | next a _ next =>
      have more := (List.getElem?_eq_some_iff.1 next).1
      refine ⟨fun _ => ?_, fun last => absurd more (Nat.not_lt.2 last)⟩
      have commanded : (f.behindNext e patch position).awaited? patch.index =
          some f.nextToken := by
        simp [awaited?, behindNext, replied, reply.lane_at, Lane.command]
      rcases reply.waits_of_awaited at_stage commanded with ⟨rfl, rfl, sends⟩
      exact ⟨a, next, rfl, rfl, sends⟩

theorem Reply.of_failure (fails : e.isSuccess = false) :
    g.build.phases[position]? = some (failedRun p) := by
  rw [reply.phases at_stage (List.mem_of_getElem? reply.place)]
  cases reply.settled with
  | failed => simp [behindFailure, replied, reply.at_]
  | last success => rw [success] at fails; cases fails
  | next _ success => rw [success] at fails; cases fails

/-- A reply leaves the siblings of its phase alone. -/
theorem Reply.sibling {i other : Nat} (ne : i ≠ patch.index)
    (member : stage.members[i]? = some other) :
    g.build.phases[other]? = f.build.phases[other]? := by
  rcases reply.settled.frame with ⟨-, -, -, -, -, others, -⟩
  have apart : other ≠ position := by
    rintro rfl
    have nodup := reply.onRun.laid.nodup at_stage
    exact ne ((List.getElem?_inj (List.getElem?_eq_some_iff.1 member).1 nodup).1
      (member.trans reply.place.symm))
  rw [reply.phases at_stage (List.mem_of_getElem? member)]
  exact others other apart

end Outcome

end Reply

theorem Rests.laid {plan : List Stage} {begun : Nat} {f : Flow} (rests : Rests plan begun f) :
    Laid plan f.build.phases := by
  cases rests with
  | setup on => exact on.laid
  | run _ _ on => exact on.laid
  | tearDown _ _ off => exact off.laid
  | finished _ _ off => exact off.laid

end Flow
end BuildPipeline
