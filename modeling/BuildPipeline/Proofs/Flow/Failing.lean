import BuildPipeline.Proofs.Flow.Barrier
import BuildPipeline.Proofs.Flow.Schedule

/-!
What a failure does to a flow. `Flow.rounds` counts how often all that a flow waits on can fail
before it has ended: once for set-up and the run together, and once for every provider of tear-down
that was not commanded yet. A failure that is taken in brings this down, or it leaves the flow on
the run with one phase less to wait on and without a new command (`Called.falls`).

Apart from that, this module has what the keeper of deadlines has to know of a course: that a
command which is waited on is new, or was waited on before the call and was not answered by it
(`Course.Of.waits_then_`), and that all commands are of the build (`Course.Of.ids`).
-/

namespace BuildPipeline

open Time (Moment)

namespace Flow

/-- How often all that the flow waits on can fail before it has ended. -/
def rounds (f : Flow) : Nat :=
  match f.leg? with
  | none => 0
  | some .tearDown => f.chains.count .tearDown - f.dispatched + 1
  | some .setup | some .run => f.chains.count .tearDown + 1

section Rounds

variable {plan plan' : List Stage} {begun begun' : Nat} {f g h : Flow} {e : Event} {now : Moment}
  {effects : List Effect} {started : List Stage} {call : Call} {leg : Leg}

theorem rounds_of_over (legs : f.legs = []) : f.rounds = 0 := by
  simp [rounds, leg?, legs]

theorem rounds_of_tearDown (on : f.leg? = some .tearDown) :
    f.rounds = f.chains.count .tearDown - f.dispatched + 1 := by
  simp only [rounds, on]

theorem rounds_of_leg (on : f.leg? = some leg) (ne : leg ≠ .tearDown) :
    f.rounds = f.chains.count .tearDown + 1 := by
  cases leg with
  | setup => simp only [rounds, on]
  | run => simp only [rounds, on]
  | tearDown => exact absurd rfl ne

theorem Touched.rounds (touched : Touched f g) : g.rounds = f.rounds := by
  rw [touched.frame]
  rfl

/-- Tear-down takes as many failures as there are providers. -/
theorem Rests.rounds_of_short (rests : Rests plan begun f) (short : f.legs <:+ [.tearDown]) :
    f.rounds ≤ f.chains.count .tearDown := by
  cases rests with
  | setup on =>
      rw [on.legs] at short
      simpa using short.length_le
  | run _ _ on =>
      rw [on.legs] at short
      simpa using short.length_le
  | tearDown legs going off lanes sent within waits =>
      rw [rounds_of_tearDown (leg?_of_legs legs)]
      omega
  | finished legs =>
      rw [rounds_of_over legs]
      exact Nat.zero_le _

theorem rounds_le (f : Flow) : f.rounds ≤ f.chains.count .tearDown + 1 := by
  cases on : f.leg? with
  | none => simp only [rounds, on, Nat.zero_le]
  | some leg =>
      by_cases last : leg = .tearDown
      · rw [rounds_of_tearDown (last ▸ on)]
        omega
      · exact Nat.le_of_eq (rounds_of_leg on last)

theorem TornDown.falls {t : Turn} (turn : TornDown h now t) (on : f.leg? = some .tearDown)
    (legs : h.legs = f.legs) (count : h.dispatched = f.dispatched) (chains : h.chains = f.chains) :
    t.flow.rounds < f.rounds := by
  rw [rounds_of_tearDown on]
  cases turn with
  | sent a next =>
      have more : f.dispatched < f.chains.count .tearDown := by
        rw [← count, ← chains]
        exact (List.getElem?_eq_some_iff.1 next).1
      have on' : h.commanded.leg? = some .tearDown := (congrArg List.head? legs).trans on
      change h.commanded.rounds < _
      rw [rounds_of_tearDown on', show h.commanded.chains = f.chains from chains,
        show h.commanded.dispatched = f.dispatched + 1 from congrArg (· + 1) count]
      omega
  | complete => exact Nat.succ_pos _
  | ended => exact Nat.succ_pos _

theorem Fed.falls {t : Turn} (fed : Fed f e now .tearDown t) (on : f.leg? = some .tearDown)
    (fails : e.isSuccess = false) : t.flow.rounds < f.rounds := by
  cases fed with
  | dropped _ ne => exact absurd rfl ne
  | pressedOn aborted t turn => exact turn.falls on rfl rfl rfl
  | cleaned live success =>
      rw [fails] at success
      cases success
  | failed =>
      rw [rounds_of_tearDown on]
      exact Nat.succ_pos _

/-- The failure of a phase leaves the flow on the run, without a new command, or ends the run. -/
theorem Reply.falls {past position : Nat} {stage : Stage} {patch : PhasePatch} {lane : Lane}
    {p : Phase} {sent : List (Address × Command)}
    (reply : Reply plan past f stage e effects started g patch lane position p h sent)
    (legs : f.legs = [.run, .tearDown]) (fails : e.isSuccess = false) :
    g.legs <:+ [.tearDown] ∨ g.legs = f.legs ∧ sends effects = [] := by
  rcases reply.settled.frame with ⟨way, -⟩
  have followed := reply.followed
  have failed : h.build.phases[position]? = some (failedRun p) ∧ sent = [] := by
    cases reply.settled with
    | failed => exact ⟨by simp [behindFailure, replied, reply.at_], rfl⟩
    | last success => rw [fails] at success; cases success
    | next _ success => rw [fails] at success; cases success
  cases followed with
  | waits effects sends incomplete => exact .inr ⟨way, sends.trans failed.2⟩
  | passes done_ =>
      have final : (failedRun p).finalResult = .done :=
        done_ position (List.mem_of_getElem? reply.place) _ failed.1
      rw [finalResult_failedRun reply.fits reply.awaited] at final
      cases final
  | cuts complete failed silent passes lands =>
      exact .inl (Course.lands_of_empty lands (way.trans legs) rfl).2.2.1

/-- An aborted flow that takes an event in on the run goes on to tear-down. -/
theorem Answered.dropped (answered : Answered plan begun f e now effects started g)
    (legs : f.legs = [.run, .tearDown]) (aborted : f.aborted = true) : g.legs <:+ [.tearDown] := by
  cases answered with
  | waits leg t eq on fed waits =>
      cases (leg?_of_legs legs).symm.trans on
      cases fed with
      | dropped => cases waits
      | phase _ _ _ _ _ _ live => rw [aborted] at live; cases live
  | passes leg t eq on fed goesOn passes lands =>
      cases (leg?_of_legs legs).symm.trans on
      cases fed with
      | dropped =>
          refine lands.spoiled (.inr ?_)
          simp [Turn.again, leaveLeg, legs]
      | phase _ _ _ _ _ _ live => rw [aborted] at live; cases live

/-- A call that brings no success brings the flow nearer to its end, or sends nothing. -/
theorem Called.falls (called : Called plan begun f call effects started g)
    (rests : Rests plan begun f) (landed : Rests plan' begun' g) (chains : g.chains = f.chains)
    (fails : ∀ e now, call = .process e now → e.isSuccess = false) :
    g.rounds < f.rounds ∨ g.rounds = f.rounds ∧ sends effects = [] := by
  -- on set-up and the run it is enough to be behind them afterwards
  have short : ∀ leg, f.leg? = some leg → leg ≠ .tearDown → g.legs <:+ [.tearDown] →
      g.rounds < f.rounds := by
    intro leg on ne short
    rw [rounds_of_leg on ne, ← chains]
    exact Nat.lt_succ_of_le (landed.rounds_of_short short)
  have spoiled : ∀ e now, call = .process e now → f.accepts e = true → e.kind = .setupEnd →
      g.legs <:+ [.tearDown] :=
    fun e now call_eq accepted kind =>
      called.spoiled rests call_eq accepted kind (fails e now call_eq)
  cases called with
  | idle touched none_ unanswered silent => exact .inr ⟨touched.rounds, silent⟩
  | answered e now call_eq accepted answered =>
      have fails := fails e now call_eq
      rcases accepts_inv accepted with ⟨-, ways⟩
      rcases ways with ⟨on, kind, -⟩ | ⟨on, -⟩ | ⟨on, -⟩
      · exact .inl (short _ on (by simp) (spoiled e now call_eq accepted kind))
      · refine .inl ?_
        cases answered with
        | waits leg t eq on' fed waits =>
            cases on.symm.trans on'
            exact fed.falls on fails
        | passes leg t eq on' fed goesOn =>
            cases on.symm.trans on'
            exact absurd rfl (fed.passing goesOn).2.2.2.1
      · rcases rests.on_run on with ⟨past, stage, at_, last, onRun, inside, -⟩
        cases aborted : f.aborted with
        | true => exact .inl (short _ on (by simp) (answered.dropped onRun.legs aborted))
        | false =>
            have none_ : f.loading? call = none := by
              rw [call_eq]
              simp [loading?, on]
            rw [none_, last] at answered
            obtain ⟨patch, lane, position, p, h, sent, reply⟩ :=
              answered.reply onRun aborted at_ inside
            rcases reply.falls onRun.legs fails with finished | ⟨legs, silent⟩
            · exact .inl (short _ on (by simp) finished)
            · have on' : g.leg? = some .run := (congrArg List.head? legs).trans on
              rw [rounds_of_leg on (by simp), rounds_of_leg on' (by simp), chains]
              exact .inr ⟨rfl, silent⟩

/-- A flow tells the build that it ends with in the call that ends it. -/
theorem Called.ends (called : Called plan begun f call effects started g)
    (going : f.ended = false) : BuildPipeline.ends effects = g.result := by
  cases called with
  | idle touched _ _ silent endless =>
      have going' : g.ended = false := by
        rw [touched.frame]
        exact going
      rw [endless, result_of_going going']
  | answered e now call_eq accepted answered => exact answered.ends going

end Rounds

end Flow

namespace Course

variable {build : Build} {script : Option String} {chains : Chains} {c : Course} {call : Call}
  {p : Posting} {e : Event}

theorem Of.rounds_le (of : Of build script chains c) :
    c.flow.rounds ≤ chains.count .tearDown + 1 := by
  rw [← of.chains_eq]
  exact c.flow.rounds_le

theorem Of.falls (of : Of build script chains c) (legal : call.Legal)
    (fails : ∀ e now, call = .process e now → e.isSuccess = false) :
    (c.then_ call).flow.rounds < c.flow.rounds ∨
      (c.then_ call).flow.rounds = c.flow.rounds ∧ (c.entry call).postings = [] := by
  rcases of.rests.called legal with ⟨called, landed⟩
  rcases called.falls of.rests landed (chains_call _ _) fails with less | ⟨same, silent⟩
  · exact .inl less
  · refine .inr ⟨same, ?_⟩
    rw [Entry.postings]
    exact List.map_eq_nil_iff.2 silent

theorem ends_start (now : Moment) :
    ends ((idle build script chains).entry (.start now)).effects =
      ((idle build script chains).then_ (.start now)).flow.result :=
  ((Flow.passes_takeOff build script chains).lands now).1.ends

theorem Of.ends_entry (of : Of build script chains c) (legal : call.Legal)
    (going : c.flow.ended = false) :
    BuildPipeline.ends (c.entry call).effects = (c.then_ call).flow.result :=
  (of.rests.called legal).1.ends going

/-! ## The build of a course -/

theorem id_call (f : Flow) (call : Call) : (f.call call).1.build.id = f.build.id := by
  cases call with
  | start now => exact (Flow.steady_drive f.takeOff none now).id
  | process e now => exact (Flow.steady_process f e now).id
  | abort now =>
      change (f.abort now).1.build.id = f.build.id
      unfold Flow.abort
      split <;> rfl

/-- The build keeps its id, and every command is of this build. -/
theorem Of.ids (of : Of build script chains c) :
    c.flow.build.id = build.id ∧ ∀ p ∈ c.postings, p.command.build.id = build.id := by
  refine of.grow (motive := fun c => c.flow.build.id = build.id ∧
    ∀ p ∈ c.postings, p.command.build.id = build.id) ⟨rfl, by simp [idle, postings]⟩ ?_
  rintro c call grows ⟨own, all⟩
  have own' : (c.then_ call).flow.build.id = build.id := (id_call c.flow call).trans own
  refine ⟨own', ?_⟩
  intro p mem
  rw [postings_then_, List.mem_append] at mem
  rcases mem with old | new
  · exact all p old
  · rcases List.mem_map.1 new with ⟨sent, sends, rfl⟩
    exact (grows.sending.ids sent sends).trans own'

/-! ## Commands that are waited on -/

/-- An event that is accepted answers the command with its token. -/
theorem Of.answers (of : Of build script chains c) {now : Moment} (legal : e.Proper)
    (sent : p ∈ c.postings) (accepted : c.flow.accepts e = true)
    (token : e.token = p.command.token) : (c.entry (.process e now)).Answers p := by
  have grows : Grows chains c (.process e now) := of.grows legal
  rcases grows.answers e now rfl accepted with ⟨l, count, on, own⟩
  rcases of.logged.last on with ⟨q, last, token'⟩
  rcases mem_sentOn.1 (List.mem_of_getLast? last) with ⟨mem, line⟩
  obtain rfl : q = p := of.logged.unique mem sent (token'.trans token)
  rw [← line, token] at own
  exact answers_of_answersOn (of.logged.fits q sent) own

/-- A command that is waited on behind a call went out in the call, or it was waited on before and
the call did not answer it. -/
theorem Of.waits_then_ (of : Of build script chains c) (legal : call.Legal)
    (sent : p ∈ (c.then_ call).postings)
    (waits : p.command.token ∈ (c.then_ call).flow.outstanding) :
    p ∈ (c.entry call).postings ∨
      p ∈ c.postings ∧ p.command.token ∈ c.flow.outstanding ∧ ¬(c.entry call).Answers p := by
  have of' := of.step call legal
  have grows := of.grows legal
  rcases List.mem_append.1 (postings_then_ c call ▸ sent) with old | new
  · rcases List.mem_iff_getElem?.1 (mem_sentOn.2 ⟨sent, rfl⟩) with ⟨position, here⟩
    have on := of'.due here waits
    have own := of.logged.answered grows old
    have walk := grows.walks p.line
    have fresh : ∀ q ∈ (c.entry call).postings.filter (·.line = p.line),
        q.command.token = p.command.token → p ∈ (c.entry call).postings := by
      intro q mem same
      have mem' := (List.mem_filter.1 mem).1
      have sent' : q ∈ (c.then_ call).postings := by
        rw [postings_then_]
        exact List.mem_append_right _ mem'
      rw [← of'.logged.unique sent' sent same]
      exact mem'
    generalize (c.entry call).postings.filter (·.line = p.line) = new at walk fresh
    generalize before : c.flow.place c.begun.length p.line = place at walk own
    generalize (c.then_ call).flow.place (c.then_ call).begun.length p.line = place' at walk on
    cases walk with
    | stay _ unanswered =>
        refine .inr ⟨old, Flow.mem_outstanding_of_place (before.trans on), fun answers => ?_⟩
        rcases own answers with ⟨count, same, answersOn⟩
        exact unanswered count _ same answersOn
    | leave => cases on
    | close => cases on
    | first q =>
        exact .inl (fresh q List.mem_cons_self (Option.some.inj (Place.on.inj on).2))
    | next _ _ q =>
        exact .inl (fresh q List.mem_cons_self (Option.some.inj (Place.on.inj on).2))
  · exact .inl new

end Course
end BuildPipeline
