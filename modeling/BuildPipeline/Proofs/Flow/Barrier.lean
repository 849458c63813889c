import BuildPipeline.Proofs.Flow.Discipline
import BuildPipeline.Proofs.Flow.Settling

/-!
The barrier between stages. No phase gets a command before every phase of the stages before its own
is done. A phase that fails leaves its siblings alone. A stage leaves the queue in the very call in
which its last phase is over; if one of its phases failed, the stages behind it are canceled in the
same call and the run is over. `Course.Barred` says so of a course, and `Course.Of.barred` that it
holds of every course.
-/

namespace BuildPipeline

open Time (Moment)

/-- Every position of a stage holds a phase, and the phase satisfies `P`. -/
def Stage.Every (s : Stage) (all : List Phase) (P : Phase → Prop) : Prop :=
  ∀ position ∈ s.members, ∃ p, all[position]? = some p ∧ P p

theorem Stage.Holds.every {s : Stage} {all : List Phase} {P : Phase → Prop} (h : s.Holds all P)
    {plan : List Stage} (laid : Laid plan all) {n : Nat} (at_ : plan[n]? = some s) :
    s.Every all P := by
  intro position mem
  have at_p := List.getElem?_eq_getElem (laid.lt_of_mem at_ mem)
  exact ⟨_, at_p, h position mem _ at_p⟩

theorem Stage.Every.holds {s : Stage} {all : List Phase} {P : Phase → Prop} (h : s.Every all P) :
    s.Holds all P := by
  intro position mem p at_
  rcases h position mem with ⟨q, at_q, holds⟩
  obtain rfl : p = q := Option.some.inj (at_.symm.trans at_q)
  exact holds

namespace Course

/-- The flow is on the run and not aborted, with a stage running and some stages behind it, when the
call is made. -/
structure Entry.Runs (n : Entry) (s : Stage) (rest : List Stage) : Prop where
  live : n.before.aborted = false
  on : n.before.leg? = some .run
  queue : n.before.stages = s :: rest

/-- The call hands over a reply to a phase of the running stage, and the flow accepts it. -/
structure Entry.Takes (n : Entry) (e : Event) (patch : PhasePatch) : Prop where
  call : ∃ now, n.call = .process e now
  accepted : n.before.accepts e = true
  phase : e.phase = some patch

/-- What a success of a phase comes to: the next provider is commanded, or behind the last one the
phase is done. -/
def Entry.Moves (chains : Chains) (n : Entry) (s : Stage) (rest : List Stage) (index : Nat) :
    Prop :=
  (n.before.sent index < chains.count .runPhase →
    ∃ q, n.postings = [q] ∧ q.line = ⟨.runPhase, n.begun - 1, index⟩ ∧
      chains.address? .runPhase (n.before.sent index) = some q.address ∧
      n.after.sent index = n.before.sent index + 1 ∧
      n.after.awaited? index = some q.command.token ∧ n.after.stages = s :: rest) ∧
  (chains.count .runPhase ≤ n.before.sent index →
    ∃ position p, s.position? index = some position ∧
      n.after.build.phases[position]? = some p ∧ p.finalResult = .done)

/-- What a failure of a phase comes to: the phase is failed, its siblings are as they were, and as
long as one of them is waited on, the stage goes on running and takes the same replies for it. -/
def Entry.Spares (n : Entry) (s : Stage) (rest : List Stage) (index : Nat) : Prop :=
  (∃ position p, s.position? index = some position ∧ n.after.build.phases[position]? = some p ∧
    p.finalResult = .failed) ∧
  ∀ sibling ≠ index,
    (∀ position, s.position? sibling = some position →
      n.after.build.phases[position]? = n.before.build.phases[position]?) ∧
    ∀ t, n.before.awaited? sibling = some t →
      n.after.leg? = some .run ∧ n.after.stages = s :: rest ∧
        n.after.awaited? sibling = some t ∧ n.after.sent sibling = n.before.sent sibling ∧
        ∀ e' patch', e'.phase = some patch' → patch'.index = sibling →
          n.after.accepts e' = n.before.accepts e'

/-- What a setback comes to that ends a stage: the stages behind it are canceled and the run is
over. -/
def Entry.Cuts (n : Entry) (rest : List Stage) : Prop :=
  (∀ r ∈ rest, r.Every n.after.build.phases (·.status = .canceled)) ∧ n.after.stages = [] ∧
    (n.after.leg? = some .tearDown ∨ n.after.ended = true)

/-- The barrier between stages. -/
structure Barred (chains : Chains) (c : Course) : Prop where
  barrier : ∀ p ∈ c.postings, p.command.kind = .runPhase → ∀ m < p.line.stage,
    ∃ s, c.plan[m]? = some s ∧ s.Every p.command.build.phases (·.finalResult = .done)
  moves : ∀ n ∈ c.entries, ∀ s rest e patch, n.Runs s rest → n.Takes e patch →
    e.isSuccess = true → n.Moves chains s rest patch.index
  spares : ∀ n ∈ c.entries, ∀ s rest e patch, n.Runs s rest → n.Takes e patch →
    e.isSuccess = false → n.Spares s rest patch.index
  pops : ∀ n ∈ c.entries, ∀ s rest, n.Runs s rest →
    (n.after.stages ≠ s :: rest ↔ s.Every n.after.build.phases (·.finalResult.isTerminal = true))
  cuts : ∀ past n future, c.entries = past ++ n :: future → ∀ s rest, n.Runs s rest →
    n.after.stages ≠ s :: rest → ¬s.Every n.after.build.phases (·.finalResult = .done) →
      n.Cuts rest ∧ (∀ q ∈ (n :: future).flatMap (·.postings), q.command.kind = .tearDown) ∧
        ∀ q ∈ c.postings, q.command.kind = .runPhase → q.line.stage < n.begun
  waits : ∀ n ∈ c.entries, n.after.leg? = some .run → ∃ s rest, n.after.stages = s :: rest ∧
    ¬s.Every n.after.build.phases (·.finalResult.isTerminal = true)
  leaves : c.flow.leg? ≠ some .setup → c.flow.leg? ≠ some .run →
    ∀ s ∈ c.plan, s.Every c.flow.build.phases (·.status.isTerminal = true)

section Entries

variable {build : Build} {script : Option String} {chains : Chains} {c : Course} {call : Call}
  {s : Stage} {rest : List Stage} {e : Event} {patch : PhasePatch}

/-- What holds of the entry of every call holds of every entry. -/
theorem Of.forall_entries {P : Entry → Prop} (of : Of build script chains c)
    (start : ∀ now, P ((idle build script chains).entry (.start now)))
    (step : ∀ (c : Course) (call : Call), Of build script chains c → call.Legal →
      P (c.entry call)) : ∀ n ∈ c.entries, P n := by
  induction of with
  | start now =>
      intro n mem
      obtain rfl := List.mem_singleton.1 mem
      exact start now
  | @step c of call legal ih =>
      intro n mem
      rcases List.mem_append.1 mem with before | now_
      · exact ih n before
      · obtain rfl := List.mem_singleton.1 now_
        exact step c call of legal

theorem not_runs_start {now : Moment} :
    ¬((idle build script chains).entry (.start now)).Runs s rest := by
  intro runs
  have on := runs.on
  simp [entry, idle, Flow.leg?] at on

theorem plan_of_run (call : Call) (on : c.flow.leg? = some .run) :
    (c.then_ call).plan = c.plan := by
  rw [plan_then_]
  have none_ : c.flow.loading? call = none := by
    cases call with
    | start => rfl
    | abort => rfl
    | process e now => simp [Flow.loading?, on]
  rw [none_]
  rfl

/-- A call on the run: the flow is only touched, or it takes in a reply to a phase. -/
theorem Of.on_run (of : Of build script chains c) (legal : call.Legal)
    (runs : (c.entry call).Runs s rest) :
    ∃ past, c.plan[past]? = some s ∧ rest = c.plan.drop (past + 1) ∧ c.begun.length = past + 1 ∧
      ¬s.Holds c.flow.build.phases (·.finalResult.isTerminal = true) ∧
      Flow.OnRun c.plan past (past + 1) c.flow ∧
      (Flow.Touched c.flow (c.entry call).after ∧
          (∀ e now, call = .process e now → c.flow.accepts e = false) ∨
        ∃ e now patch lane position p h sent, call = .process e now ∧
          Flow.Reply c.plan past c.flow s e (c.entry call).effects (c.entry call).started
            (c.entry call).after patch lane position p h sent) := by
  rcases of.rests.on_run runs.on with ⟨past, stage, at_, last, on, inside, waits⟩
  have queue : s :: rest = stage :: c.plan.drop (past + 1) :=
    runs.queue.symm.trans (on.stages_eq at_)
  rcases List.cons.inj queue with ⟨rfl, rfl⟩
  refine ⟨past, at_, rfl, last, waits, on, ?_⟩
  have called : Flow.Called c.plan c.begun.length c.flow call (c.entry call).effects
      (c.entry call).started (c.entry call).after := (of.rests.called legal).1
  generalize (c.entry call).effects = effects at called ⊢
  generalize (c.entry call).started = started at called ⊢
  generalize (c.entry call).after = g at called ⊢
  cases called with
  | idle touched _ unanswered => exact .inl ⟨touched, unanswered⟩
  | answered e now call_eq accepted answered =>
      have planned : Flow.planned c.plan (c.flow.loading? call) = c.plan :=
        plan_of_run call runs.on
      rw [planned, last] at answered
      rcases answered.reply on runs.live at_ inside with ⟨patch, lane, position, p, h, sent, reply⟩
      exact .inr ⟨e, now, patch, lane, position, p, h, sent, call_eq, reply⟩

/-- An event that is taken on the run is a reply to a phase of the running stage. -/
theorem Of.reply (of : Of build script chains c) (legal : call.Legal)
    (runs : (c.entry call).Runs s rest) (takes : (c.entry call).Takes e patch) :
    ∃ past lane position p h sent, c.plan[past]? = some s ∧
      Flow.Reply c.plan past c.flow s e (c.entry call).effects (c.entry call).started
        (c.entry call).after patch lane position p h sent := by
  rcases takes.call with ⟨now, call_eq⟩
  have accepted : c.flow.accepts e = true := takes.accepted
  rcases of.on_run legal runs with ⟨past, at_, -, -, -, -, outcome⟩
  rcases outcome with ⟨-, unanswered⟩ | ⟨e', now', patch', lane, position, p, h, sent, eq, reply⟩
  · rw [unanswered e now call_eq] at accepted
    cases accepted
  · cases call_eq.symm.trans eq
    obtain rfl : patch = patch' := Option.some.inj (takes.phase.symm.trans reply.phase)
    exact ⟨past, lane, position, p, h, sent, at_, reply⟩

theorem Of.moves (of : Of build script chains c) (legal : call.Legal)
    (runs : (c.entry call).Runs s rest) (takes : (c.entry call).Takes e patch)
    (success : e.isSuccess = true) : (c.entry call).Moves chains s rest patch.index := by
  rcases of.reply legal runs takes with ⟨past, lane, position, p, h, sent, at_, reply⟩
  rcases reply.of_success at_ success with ⟨more, final⟩
  have count : (c.entry call).before.sent patch.index = lane.sent := Flow.sent_of_lane reply.lane_at
  rw [of.chains_eq] at more final
  unfold Entry.Moves
  rw [count]
  constructor
  · intro lt
    rcases more lt with ⟨a, next, after, started, sends⟩
    have commanded : (c.entry call).after.lanes[patch.index]? =
        some (Flow.Lane.command lane c.flow.nextToken) := by
      rw [after]
      simp [Flow.behindNext, Flow.replied, reply.lane_at]
    refine ⟨_, by rw [Entry.postings, sends]; rfl, ?_, next, Flow.sent_of_lane commanded, ?_, ?_⟩
    · simp [Entry.posting, Entry.lineOf, Command.runPhase, Entry.stage, started, Flow.nextRun,
        Phase.beginRun]
    · rw [Flow.awaited?, commanded]
      rfl
    · rw [after, ← runs.queue]
      rfl
  · intro le
    exact ⟨position, _, reply.place, final le,
      Flow.finalResult_settledRun patch reply.fits reply.awaited⟩

theorem accepts_of_run {f g : Flow} (legs : g.leg? = f.leg?) (on : f.leg? = some .run)
    (ended : g.ended = f.ended) {index : Nat} (awaited : g.awaited? index = f.awaited? index)
    {e : Event} {patch : PhasePatch} (phase : e.phase = some patch) (own : patch.index = index) :
    g.accepts e = f.accepts e := by
  subst own
  simp only [Flow.accepts, legs, on, ended, phase, awaited]
  cases e.kind <;> rfl

theorem Of.spares (of : Of build script chains c) (legal : call.Legal)
    (runs : (c.entry call).Runs s rest) (takes : (c.entry call).Takes e patch)
    (fails : e.isSuccess = false) : (c.entry call).Spares s rest patch.index := by
  rcases of.reply legal runs takes with ⟨past, lane, position, p, h, sent, at_, reply⟩
  refine ⟨⟨position, _, reply.place, reply.of_failure at_ fails,
    Flow.finalResult_failedRun reply.fits reply.awaited⟩, ?_⟩
  intro sibling ne
  refine ⟨fun other member => reply.sibling at_ ne member, ?_⟩
  intro t awaited
  rcases reply.settled.frame with ⟨legs, stages, -, -, ended, -, lanes⟩
  have same : h.lanes[sibling]? = c.flow.lanes[sibling]? := lanes sibling ne
  have still : h.awaited? sibling = c.flow.awaited? sibling := by
    rw [Flow.awaited?, same]
    rfl
  rcases reply.waits_of_awaited at_ (still.trans awaited) with ⟨after, -⟩
  have leg : h.leg? = c.flow.leg? := congrArg List.head? legs
  rw [after]
  refine ⟨leg.trans runs.on, stages.trans runs.queue, still.trans awaited, ?_, ?_⟩
  · unfold Flow.sent Flow.progress?
    rw [same]
    rfl
  · intro e' patch' phase own
    exact accepts_of_run leg runs.on ended still phase own

/-- What a call on the run makes of the running stage: it stays in the queue and open, or leaves the
queue as done, or is over with a setback. -/
inductive Ends (plan : List Stage) (past : Nat) (s : Stage) (n : Entry) : Prop
  | stays (queue : n.after.stages = n.before.stages)
      (open_ : ¬s.Holds n.after.build.phases (·.finalResult.isTerminal = true))
  | passes (queue : n.after.stages <:+ plan.drop (past + 1))
      (done : s.Holds n.after.build.phases (·.finalResult = .done))
  | cuts (queue : n.after.stages = [])
      (complete : s.Holds n.after.build.phases (·.finalResult.isTerminal = true))
      (failed : ¬s.Holds n.after.build.phases (·.finalResult = .done))
      (legs : n.after.legs <:+ [.tearDown])
      (finished : n.after.leg? = some .tearDown ∨ n.after.ended = true)
      (canceled : ∀ r ∈ plan.drop (past + 1),
        r.Every n.after.build.phases (·.status = .canceled))

/-- A flow that passes on with nothing queued ends the run. -/
theorem lands_of_empty {plan : List Stage} {begun : Nat} {f g : Flow} {effects : List Effect}
    {started : List Stage} (lands : Flow.Lands plan begun f effects started g)
    (legs : f.legs = [.run, .tearDown]) (empty : f.stages = []) :
    started = [] ∧ g.stages = [] ∧ g.legs <:+ [.tearDown] ∧
      (g.leg? = some .tearDown ∨ g.ended = true) := by
  rcases lands.queue with ⟨front, back⟩
  rw [empty] at front back
  have none_ := List.prefix_nil.1 front
  refine ⟨none_, List.suffix_nil.1 back, ?_⟩
  cases lands with
  | @step _ _ h leg ne a between on =>
      obtain ⟨rest, way⟩ : ∃ rest, h.legs = leg :: rest := List.head?_eq_some_iff.1 on
      have suffix_ := between.legs
      rw [legs, way] at suffix_
      rcases List.suffix_cons_iff.1 suffix_ with whole | shorter
      · exact absurd (List.cons.inj whole).1 ne
      · obtain rfl := List.mem_singleton.1 (shorter.subset List.mem_cons_self)
        refine ⟨?_, .inl on⟩
        rw [show h.commanded.legs = h.legs from rfl, way]
        exact shorter
  | stage => simp at none_
  | finished => exact ⟨List.nil_suffix, .inr rfl⟩

theorem Reply.ends {plan : List Stage} {past : Nat} {f : Flow} {effects : List Effect}
    {started : List Stage} {g : Flow} {lane : Lane} {position : Nat} {p : Phase} {h : Flow}
    {sent : List (Address × Command)} {begun : Nat}
    (reply : Flow.Reply plan past f s e effects started g patch lane position p h sent)
    (at_ : plan[past]? = some s) (legs : f.legs = [.run, .tearDown]) :
    Ends plan past s ⟨f, call, g, effects, begun, started⟩ := by
  rcases reply.settled.frame with ⟨way, stages, -⟩
  have queue := reply.onRun.queue
  have laid := reply.onRun.laid
  have kept : ∀ position' ∈ s.members, g.build.phases[position']? = h.build.phases[position']? :=
    fun _ mem => reply.phases at_ mem
  have tail : h.stages.tail = plan.drop (past + 1) := by
    rw [reply.onRun.stages_eq at_, List.tail_cons]
  have followed := reply.followed
  cases followed with
  | waits _ _ incomplete => exact .stays stages incomplete
  | passes done_ silent passes lands =>
      refine .passes ?_ (done_.congr kept)
      rw [← tail]
      exact lands.queue.2
  | cuts complete failed silent passes lands =>
      rcases lands_of_empty lands (way.trans legs) rfl with ⟨none_, empty, only, finished⟩
      refine .cuts empty (complete.congr kept) ?_ only finished ?_
      · intro done
        exact failed (done.congr fun position' mem => (kept position' mem).symm)
      · intro r queued position' mem
        have canceled : position' ∈ h.stages.tail.flatMap (·.members) := by
          rw [tail]
          exact List.mem_flatMap.2 ⟨r, queued, mem⟩
        rcases List.mem_iff_getElem?.1 queued with ⟨n, at_n⟩
        rw [List.getElem?_drop] at at_n
        have at_q := List.getElem?_eq_getElem (laid.lt_of_mem at_n mem)
        rw [lands.phases (by simp [none_]), Flow.getElem?_canceledAt, at_q]
        exact ⟨_, rfl, by simp [canceled]⟩

theorem Of.ends (of : Of build script chains c) (legal : call.Legal)
    (runs : (c.entry call).Runs s rest) :
    ∃ past, c.plan[past]? = some s ∧ rest = c.plan.drop (past + 1) ∧ c.begun.length = past + 1 ∧
      Laid c.plan (c.entry call).after.build.phases ∧ Ends c.plan past s (c.entry call) := by
  rcases of.on_run legal runs with ⟨past, at_, rest_eq, last, waits, on, outcome⟩
  have laid : Laid (c.then_ call).plan (c.then_ call).flow.build.phases :=
    (of.rests.called legal).2.laid
  rw [plan_of_run call runs.on] at laid
  refine ⟨past, at_, rest_eq, last, laid, ?_⟩
  rcases outcome with ⟨touched, -⟩ | ⟨e, now, patch, lane, position, p, h, sent, -, reply⟩
  · refine .stays ?_ ?_
    · rw [touched.frame]
      rfl
    · rw [touched.complete_iff on.laid at_]
      exact waits
  · exact Reply.ends reply at_ on.legs

theorem Of.pops (of : Of build script chains c) (legal : call.Legal)
    (runs : (c.entry call).Runs s rest) :
    (c.entry call).after.stages ≠ s :: rest ↔
      s.Every (c.entry call).after.build.phases (·.finalResult.isTerminal = true) := by
  rcases of.ends legal runs with ⟨past, at_, rest_eq, -, laid, ends⟩
  cases ends with
  | stays queue open_ =>
      rw [runs.queue] at queue
      exact ⟨fun left => absurd queue left, fun complete => absurd complete.holds open_⟩
  | passes queue done =>
      refine ⟨fun _ => ?_, fun _ kept => ?_⟩
      · exact (done.mono fun p final => by rw [final]; rfl).every laid at_
      · rw [kept, ← rest_eq] at queue
        have short := queue.length_le
        rw [List.length_cons] at short
        omega
  | cuts queue complete =>
      refine ⟨fun _ => complete.every laid at_, fun _ kept => ?_⟩
      rw [queue] at kept
      cases kept

theorem Of.cuts (of : Of build script chains c) (legal : call.Legal)
    (runs : (c.entry call).Runs s rest) (left : (c.entry call).after.stages ≠ s :: rest)
    (failed : ¬s.Every (c.entry call).after.build.phases (·.finalResult = .done)) :
    (c.entry call).Cuts rest ∧ (c.entry call).after.legs <:+ [.tearDown] := by
  rcases of.ends legal runs with ⟨past, at_, rest_eq, -, laid, ends⟩
  cases ends with
  | stays queue => exact absurd (queue.trans runs.queue) left
  | passes _ done => exact absurd (done.every laid at_) failed
  | cuts queue complete _ legs finished canceled =>
      rw [← rest_eq] at canceled
      exact ⟨⟨canceled, queue, finished⟩, legs⟩

/-- No phase of a stage behind the running one got a command. -/
theorem Of.unsent (of : Of build script chains c) :
    ∀ past n future, c.entries = past ++ n :: future → n.before.leg? = some .run →
      ∀ q ∈ past.flatMap (·.postings), q.command.kind = .runPhase → q.line.stage < n.begun := by
  refine of.induct (motive := fun c => ∀ past n future, c.entries = past ++ n :: future →
    n.before.leg? = some .run → ∀ q ∈ past.flatMap (·.postings), q.command.kind = .runPhase →
      q.line.stage < n.begun) ?_ ?_
  · intro past n future split
    simp [idle] at split
  · intro c call logged grows old past n future split on q mem kind
    rcases split_concat split with ⟨rfl, rfl, rfl⟩ | ⟨rest, rfl, shorter⟩
    · refine Nat.lt_of_not_le fun future => ?_
      have capability : q.line.capability = .runPhase := (logged.fits q mem).1.trans kind
      have ahead : c.flow.place c.begun.length q.line = .ahead := by
        obtain ⟨tail, legs⟩ : ∃ tail, c.flow.legs = .run :: tail := List.head?_eq_some_iff.1 on
        unfold Flow.place
        split
        · rfl
        · have leg : c.flow.leg? = some q.line.capability.leg := by
            rw [capability]
            exact on
          rw [if_pos leg]
          exact Flow.lanePlace_of_future future
      have nothing := (logged.lines q.line).ahead ahead
      have sent := mem_sentOn.2 ⟨mem, rfl⟩
      rw [nothing] at sent
      cases sent
    · exact old past n rest shorter on q mem kind

/-! ## The stages before the one of a command -/

/-- Every phase of the stages before the one of a posting is done in the build that it carries. -/
def Behind (plan : List Stage) (q : Posting) : Prop :=
  ∀ m < q.line.stage, ∃ s, plan[m]? = some s ∧
    s.Every q.command.build.phases (·.finalResult = .done)

theorem behind_of_done {plan : List Stage} {past next : Nat} {f : Flow} {q : Posting}
    (on : Flow.OnRun plan past next f) (at_ : plan[past]? = some s) (stage : q.line.stage = past)
    (others : ∀ position : Nat, position ∉ s.members →
      q.command.build.phases[position]? = f.build.phases[position]?) : Behind plan q := by
  intro m lt
  have bound : m < plan.length := by
    have := (List.getElem?_eq_some_iff.1 at_).1
    omega
  have at_m := List.getElem?_eq_getElem bound
  refine ⟨_, at_m, ?_⟩
  intro position mem
  have out : position ∉ s.members := by
    intro here
    exact on.laid.ne_of_stages at_m at_ (by omega) mem here rfl
  have at_p := List.getElem?_eq_getElem (on.laid.lt_of_mem at_m mem)
  rw [others position out, at_p]
  exact ⟨_, rfl, (on.done m _ at_m (by omega) position mem _ at_p).1⟩

theorem behind_of_lands {plan : List Stage} {begun : Nat} {f g : Flow} {effects : List Effect}
    {started : List Stage} (lands : Flow.Lands plan begun f effects started g) :
    ∀ q ∈ (sends effects).map (Entry.posting (begun + started.length - 1)),
      q.command.kind = .runPhase → Behind plan q := by
  intro q mem kind
  cases lands with
  | @step done started h leg ne a between =>
      rw [sends_append, between.silent] at mem
      obtain rfl : q = Entry.posting _ (a, h.stepCommand leg) := by simpa using mem
      cases leg with
      | run => exact absurd rfl ne
      | setup => cases kind
      | tearDown => cases kind
  | @stage done started h s a between live on at_ some_ head =>
      have head' : h.chains.address? .runPhase 0 = some a := between.steady.chains ▸ head
      rcases on.startStage live at_ head' with ⟨fan, -⟩
      rw [between.sends_startStage] at mem
      rcases List.mem_map.1 mem with ⟨sent, sends, rfl⟩
      rcases List.mem_iff_getElem?.1 sends with ⟨k, at_k⟩
      have lt : k < s.members.length := by
        rw [← fan.count]
        exact (List.getElem?_eq_some_iff.1 at_k).1
      have inside := on.laid.lt_of_mem at_ (List.getElem_mem lt)
      obtain ⟨b, command, -, -, others⟩ := fan.commands k _ _ (List.getElem?_eq_getElem lt)
        (List.getElem?_eq_getElem inside)
      rw [command] at at_k
      cases at_k
      refine behind_of_done on at_ ?_ others
      simp only [Entry.posting, Entry.lineOf, Command.runPhase, List.length_append,
        List.length_singleton]
      omega
  | finished build effects between on silent =>
      rw [sends_append, sends_append, between.silent, silent] at mem
      cases mem

theorem behind_of_reply {plan : List Stage} {past : Nat} {f : Flow} {effects : List Effect}
    {started : List Stage} {g : Flow} {lane : Lane} {position : Nat} {p : Phase} {h : Flow}
    {sent : List (Address × Command)}
    (reply : Flow.Reply plan past f s e effects started g patch lane position p h sent)
    (at_ : plan[past]? = some s) :
    ∀ q ∈ (sends effects).map (Entry.posting (past + 1 + started.length - 1)),
      q.command.kind = .runPhase → Behind plan q := by
  intro q mem kind
  have followed := reply.followed
  cases followed with
  | waits _ sends incomplete =>
      rw [sends] at mem
      have settled := reply.settled
      cases settled with
      | failed => cases mem
      | last => cases mem
      | next a success next =>
          obtain rfl := List.mem_singleton.1 mem
          exact behind_of_done reply.onRun at_ rfl fun _ _ => rfl
  | passes done_ silent passes lands =>
      rw [sends_append, silent, List.nil_append] at mem
      exact behind_of_lands lands q mem kind
  | cuts complete failed silent passes lands =>
      rw [sends_append, silent, List.nil_append] at mem
      exact behind_of_lands lands q mem kind

/-- A turn that waits off the run sends no command of the run. -/
theorem kind_of_waits {plan : List Stage} {begun : Nat} {f : Flow} {now : Moment} {leg : Leg}
    {t : Turn} (fed : Flow.Fed f e now leg t) (rests : Flow.Rests plan begun f)
    (on : f.leg? = some leg) (waits : t.goesOn = false) (ne : leg = .run → f.aborted = true) :
    ∀ sent ∈ sends t.effects, sent.2.kind ≠ .runPhase := by
  intro sent mem run
  have legs := (fed.sending rests on waits).legs sent mem
  rw [run] at legs
  cases fed with
  | dropped => cases waits
  | refused => cases waits
  | adopted live success t turn =>
      rcases Flow.adopt_frame f.clearStep e with ⟨kept, -⟩
      cases turn with
      | left => cases waits
      | sent a next =>
          have still : (f.clearStep.adopt e).leg? = some .setup :=
            (congrArg List.head? kept).trans on
          cases still.symm.trans legs
  | phase _ _ _ _ _ _ live =>
      rw [ne rfl] at live
      cases live
  | pressedOn aborted t turn =>
      cases turn with
      | sent a next => cases on.symm.trans legs
      | complete => cases legs
      | ended => cases legs
  | cleaned live success plain t turn =>
      rcases Flow.adopt_frame f.clearStep e with ⟨kept, -⟩
      cases turn with
      | sent a next =>
          have still : (f.clearStep.adopt e).leg? = some .tearDown :=
            (congrArg List.head? kept).trans on
          cases still.symm.trans legs
      | complete => cases legs
      | ended => cases legs
  | failed => cases legs

theorem Of.behind_entry (of : Of build script chains c) (legal : call.Legal) :
    ∀ q ∈ (c.entry call).postings, q.command.kind = .runPhase →
      Behind (c.then_ call).plan q := by
  have rests := of.rests
  by_cases runs : c.flow.leg? = some .run ∧ c.flow.aborted = false
  · obtain ⟨on, live⟩ := runs
    rcases rests.on_run on with ⟨past, stage, at_, last, onRun, -⟩
    have runs : (c.entry call).Runs stage (c.plan.drop (past + 1)) :=
      ⟨live, on, onRun.stages_eq at_⟩
    rcases of.on_run legal runs with ⟨past', at_', -, last', -, -, outcome⟩
    rw [plan_of_run call on]
    intro q mem kind
    have mem' : q ∈ (sends (c.entry call).effects).map
        (Entry.posting (c.begun.length + (c.entry call).started.length - 1)) := mem
    rcases outcome with ⟨-, unanswered⟩ | ⟨e, now, patch, lane, position, p, h, sent, -, reply⟩
    · have called : Flow.Called c.plan c.begun.length c.flow call (c.entry call).effects
          (c.entry call).started (c.entry call).after := (rests.called legal).1
      generalize (c.entry call).effects = effects at called mem'
      generalize (c.entry call).started = started at called mem'
      generalize (c.entry call).after = g at called
      cases called with
      | idle _ _ _ silent =>
          rw [silent] at mem'
          cases mem'
      | answered e now call_eq accepted =>
          rw [unanswered e now call_eq] at accepted
          cases accepted
    · rw [last'] at mem'
      exact behind_of_reply reply at_' q mem' kind
  · intro q mem kind
    have mem' : q ∈ (sends (c.entry call).effects).map
        (Entry.posting (c.begun.length + (c.entry call).started.length - 1)) := mem
    have called : Flow.Called c.plan c.begun.length c.flow call (c.entry call).effects
        (c.entry call).started (c.entry call).after := (rests.called legal).1
    rw [plan_then_]
    generalize (c.entry call).effects = effects at called mem'
    generalize (c.entry call).started = started at called mem'
    generalize (c.entry call).after = g at called
    cases called with
    | idle _ _ _ silent =>
        rw [silent] at mem'
        cases mem'
    | answered e now call_eq accepted answered =>
        cases answered with
        | waits leg t eq on fed waits =>
            rcases List.mem_map.1 mem' with ⟨sent, sends, rfl⟩
            refine absurd kind (kind_of_waits fed rests on waits ?_ sent sends)
            rintro rfl
            simpa [on] using runs
        | passes leg t eq on fed goesOn passes lands =>
            rw [sends_append, (fed.passing goesOn).1, List.nil_append] at mem'
            exact behind_of_lands lands q mem' kind

theorem Of.behind (of : Of build script chains c) :
    ∀ q ∈ c.postings, q.command.kind = .runPhase → Behind c.plan q := by
  induction of with
  | start now =>
      intro q mem kind
      have lands := ((Flow.passes_takeOff build script chains).lands now).1
      have own : q ∈ ((idle build script chains).entry (.start now)).postings := by
        rcases List.mem_flatMap.1 mem with ⟨n, here, mem⟩
        obtain rfl := List.mem_singleton.1 here
        exact mem
      exact behind_of_lands lands q own kind
  | @step c of call legal ih =>
      intro q mem kind
      rw [postings_then_, List.mem_append] at mem
      rcases mem with old | new
      · have loaded : c.flow.loading? call = none := by
          -- a command of the run went out, so set-up is behind and the plan stays
          have logged := of.logged
          have capability := (logged.fits q old).1.trans kind
          have left : c.flow.leg? ≠ some .setup := by
            intro on
            have sent := mem_sentOn.2 ⟨old, rfl⟩
            have legs := (of.rests.on_setup on).1.legs
            have ahead : c.flow.place c.begun.length q.line = .ahead :=
              Flow.place_of_later (by rw [legs, capability]; decide)
            rw [(logged.lines q.line).ahead ahead] at sent
            cases sent
          cases call with
          | start => rfl
          | abort => rfl
          | process e now => simp [Flow.loading?, left]
        rw [plan_then_, loaded]
        exact ih q old kind
      · exact of.behind_entry legal q new kind

theorem Of.waits (of : Of build script chains c) (legal : call.Legal)
    (on : (c.entry call).after.leg? = some .run) :
    ∃ s rest, (c.entry call).after.stages = s :: rest ∧
      ¬s.Every (c.entry call).after.build.phases (·.finalResult.isTerminal = true) := by
  rcases (of.rests.called legal).2.on_run on with ⟨past, stage, at_, -, onRun, -, waits⟩
  exact ⟨stage, _, onRun.stages_eq at_, fun complete => waits complete.holds⟩

theorem waits_start {now : Moment}
    (on : ((idle build script chains).entry (.start now)).after.leg? = some .run) :
    ∃ s rest, ((idle build script chains).entry (.start now)).after.stages = s :: rest ∧
      ¬s.Every ((idle build script chains).entry (.start now)).after.build.phases
        (·.finalResult.isTerminal = true) := by
  have rests := ((Flow.passes_takeOff build script chains).lands now).2
  rcases rests.on_run on with ⟨past, stage, at_, -, onRun, -, waits⟩
  exact ⟨stage, _, onRun.stages_eq at_, fun complete => waits complete.holds⟩

theorem Of.leaves (of : Of build script chains c) (setup : c.flow.leg? ≠ some .setup)
    (run : c.flow.leg? ≠ some .run) :
    ∀ s ∈ c.plan, s.Every c.flow.build.phases (·.status.isTerminal = true) := by
  intro s mem
  rcases List.mem_iff_getElem?.1 mem with ⟨n, at_⟩
  cases of.rests with
  | setup on => exact absurd (Flow.leg?_of_legs on.legs) setup
  | run _ _ on => exact absurd (Flow.leg?_of_legs on.legs) run
  | tearDown _ _ off => exact (off.finished n s at_).every off.laid at_
  | finished _ _ off => exact (off.finished n s at_).every off.laid at_

/-- Every course keeps the barrier between stages. -/
theorem Of.barred (of : Of build script chains c) : c.Barred chains := by
  refine ⟨of.behind, ?_, ?_, ?_, ?_, ?_, of.leaves⟩
  · refine of.forall_entries (fun now s rest e patch runs => absurd runs not_runs_start) ?_
    intro c call of legal s rest e patch runs takes success
    exact of.moves legal runs takes success
  · refine of.forall_entries (fun now s rest e patch runs => absurd runs not_runs_start) ?_
    intro c call of legal s rest e patch runs takes fails
    exact of.spares legal runs takes fails
  · refine of.forall_entries (fun now s rest runs => absurd runs not_runs_start) ?_
    intro c call of legal s rest runs
    exact of.pops legal runs
  · have cuts : ∀ n ∈ c.entries, ∀ s rest, n.Runs s rest → n.after.stages ≠ s :: rest →
        ¬s.Every n.after.build.phases (·.finalResult = .done) →
          n.Cuts rest ∧ n.after.legs <:+ [.tearDown] := by
      refine of.forall_entries (fun now s rest runs => absurd runs not_runs_start) ?_
      intro c call of legal s rest runs left failed
      exact of.cuts legal runs left failed
    intro past n future split s rest runs left failed
    have mem : n ∈ c.entries := by
      rw [split]
      exact List.mem_append_right _ List.mem_cons_self
    rcases cuts n mem s rest runs left failed with ⟨cut, legs⟩
    have only := of.tearDown_only past n future split legs
    refine ⟨cut, only, ?_⟩
    intro q sent kind
    unfold postings at sent
    rw [split, List.flatMap_append, List.mem_append] at sent
    rcases sent with old | new
    · exact of.unsent past n future split runs.on q old kind
    · rw [only q new] at kind
      cases kind
  · refine of.forall_entries (fun now on => waits_start on) ?_
    intro c call of legal on
    exact of.waits legal on

theorem barred_brokenOff :
    brokenOff.flow.build.phases.map (·.status) = [.failed, .canceled] ∧
      brokenOff.Barred shortChains :=
  ⟨by cbv, Of.barred of_brokenOff⟩

end Entries

end Course
end BuildPipeline
