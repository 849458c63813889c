import BuildPipeline.Proofs.Flow.Updates

/-!
Updates that trail the completion they belong to. An update and a completion of one command arrive
on separate ways, so either may come first. As long as the completion leaves the stage running, its
phase ends up with the container of the update in both orders. A completion that ends the stage
closes it to updates: the one that trails is dropped, and its phase keeps the container that it had
(`Course.Unchecked.trailing`).
-/

namespace BuildPipeline

open Time (Moment)

/-- What a phase says about its container. -/
def Phase.container (p : Phase) : Option String × Option String × Option UInt16 :=
  (p.containerId, p.containerHost, p.containerPort)

theorem Phase.container_applyContainer {p q : Phase} (same : p.container = q.container)
    (patch : PhasePatch) :
    (p.applyContainer patch).container = (q.applyContainer patch).container := by
  obtain ⟨id, host, port⟩ : p.containerId = q.containerId ∧ p.containerHost = q.containerHost ∧
      p.containerPort = q.containerPort := by simpa [container] using same
  simp only [container, applyContainer, id, host, port]

theorem Event.phase_checked (e : Event) : e.checked.phase = e.phase := by
  unfold checked
  split <;> rfl

namespace Flow

theorem accepts_checked (f : Flow) (e : Event) : f.accepts e.checked = f.accepts e := by
  unfold Event.checked
  split <;> rfl

/-- While the stage stays the same an index belongs to one position. -/
theorem runningPosition?_inj {f g : Flow} {i a b : Nat} (queue : g.stages = f.stages)
    (one : f.runningPosition? i = some a) (other : g.runningPosition? i = some b) : a = b := by
  rw [runningPosition?, Option.filter_eq_some_iff] at one other
  rw [queue, one.1] at other
  exact Option.some.inj other.1

/-- What the phase at a position of the build says about its container. -/
def container? (f : Flow) (position : Nat) :
    Option (Option String × Option String × Option UInt16) :=
  f.build.phases[position]?.map (·.container)

section Replies

variable {plan : List Stage} {past position : Nat} {f g h : Flow} {s : Stage} {e : Event}
  {effects : List Effect} {started : List Stage} {patch : PhasePatch} {lane : Lane} {p : Phase}
  {sent : List (Address × Command)}

theorem container?_update (at_ : f.build.phases[position]? = some p) (patch : PhasePatch) :
    (f.modifyPhase position (·.applyContainer patch)).container? position =
      some (p.applyContainer patch).container := by
  simp [container?, modifyPhase, at_]

/-- A reply that names no container leaves its phase with the container that it had. -/
theorem Reply.container?_eq
    (reply : Reply plan past f s e effects started g patch lane position p h sent)
    (at_ : plan[past]? = some s) (plain : patch.hasContainer = false) :
    g.container? position = f.container? position := by
  have passed : (passedRun patch p).container = p.container := by
    simp [passedRun, plain, Phase.finishRun, Phase.container]
  rw [container?, container?, reply.phases at_ (List.mem_of_getElem? reply.place), reply.at_]
  cases reply.settled with
  | failed => simp [behindFailure, replied, reply.at_, failedRun, Phase.finishRun, Phase.container]
  | last => simpa [behindLast, replied, reply.at_, settledRun, Phase.container] using passed
  | next => simpa [behindNext, replied, reply.at_, nextRun, Phase.beginRun, Phase.container]
      using passed

/-- What a reply comes to that leaves its stage in the queue, or takes it out. -/
theorem Reply.stays_or_leaves
    (reply : Reply plan past f s e effects started g patch lane position p h sent)
    (at_ : plan[past]? = some s) :
    g = h ∧ g.stages = f.stages ∨
      g.stages ≠ f.stages ∧ (g.leg? = some .run → 0 < started.length) := by
  have stages : h.stages = f.stages := reply.settled.frame.2.1
  have queue := reply.onRun.stages_eq at_
  have shorter : ∀ {rest : List Stage}, rest <:+ h.stages.tail → rest ≠ f.stages := by
    rintro rest suffix_ rfl
    have le := suffix_.length_le
    rw [stages, ← stages, queue, List.tail_cons, List.length_cons] at le
    omega
  cases reply.followed with
  | waits => exact .inl ⟨rfl, stages⟩
  | passes _ _ _ lands =>
      exact .inr ⟨shorter lands.queue.2, fun on => (lands.issued (i := 0) (t := ⟨0⟩) on).2.1⟩
  | cuts _ _ _ _ lands =>
      have nothing := List.suffix_nil.1 lands.queue.2
      exact .inr ⟨shorter (nothing ▸ List.nil_suffix),
        fun on => (lands.issued (i := 0) (t := ⟨0⟩) on).2.1⟩

end Replies

end Flow

namespace Course

/-- A host has an update and a completion for a command that the flow waits on. The update names a
container, and the completion names none. -/
structure Reported (c : Course) (m : Command) (patch : PhasePatch) (u e : Event) : Prop where
  on : c.flow.leg? = some .run
  live : c.flow.aborted = false
  sent : m ∈ c.commands
  waits : m.token ∈ c.flow.outstanding
  names : ∃ p, m.phase = some p ∧ patch.index = p.index
  update : u.kind = .phaseUpdate ∧ u.token = m.token ∧ u.phase = some patch
  container : u.isSuccess = true ∧ patch.hasContainer = true
  completion : e.kind = .phaseEnd ∧ e.token = m.token
  plain : ∃ bare, e.phase = some bare ∧ bare.index = patch.index ∧ bare.hasContainer = false

section Trailing

variable {build : Build} {script : Option String} {chains : Chains} {c : Course} {m : Command}
  {patch bare : PhasePatch} {u e : Event} {i : Nat} {t : Token}

/-- What the running stage waits on is the token of a command that went out for it. -/
theorem Unchecked.posted_of_awaited (run : Unchecked build script chains c)
    (on : c.flow.leg? = some .run) (awaited : c.flow.awaited? i = some t) :
    Flow.Posted c.postings (c.begun.length - 1) i t := by
  obtain ⟨d, of, same⟩ := run.checked_of_run on
  rw [← same.flow] at on awaited
  rw [← same.postings, ← same.begun]
  obtain ⟨past, stage, -, last, on', -⟩ := of.rests.on_run on
  obtain ⟨lane, lane_at, awaited⟩ := Option.bind_eq_some_iff.1 awaited
  let l : Line := ⟨.runPhase, d.begun.length - 1, i⟩
  have place : d.flow.place d.begun.length l = .on lane.sent (some t) := by
    rw [Flow.place_of_leg on'.legs (by decide) rfl, if_pos rfl,
      Flow.lanePlace_of_lane (l := l) (show _ = _ - 1 + 1 by omega) lane_at, awaited]
  obtain ⟨p, last, token⟩ := of.logged.last place
  obtain ⟨mem, line⟩ := mem_sentOn.1 (List.mem_of_getLast? last)
  exact ⟨p, mem, line, token⟩

/-- A token was issued for no more than one stage. -/
theorem Unchecked.stage_of_posted (run : Unchecked build script chains c)
    (on : c.flow.leg? = some .run) {stage stage' j : Nat}
    (one : Flow.Posted c.postings stage i t) (other : Flow.Posted c.postings stage' j t) :
    stage = stage' := by
  obtain ⟨d, of, same⟩ := run.checked_of_run on
  rw [← same.postings] at one other
  obtain ⟨p, mem, line, token⟩ := one
  obtain ⟨q, mem', line', token'⟩ := other
  obtain rfl := of.logged.unique mem mem' (token.trans token'.symm)
  exact (Line.mk.inj (line.symm.trans line')).2.1

/-- A completion that is accepted on the run is a reply to a phase of the running stage. -/
theorem Unchecked.reply (run : Unchecked build script chains c) (on : c.flow.leg? = some .run)
    (live : c.flow.aborted = false) (accepted : c.flow.accepts e = true)
    (phase : e.phase = some bare) (now : Moment) :
    ∃ plan past s lane position p h sent, plan[past]? = some s ∧ 0 < c.begun.length ∧
      c.flow.runningPosition? bare.index = some position ∧
      Flow.Reply plan past c.flow s e.checked (c.flow.process e now).2
        (c.flow.started (.process e now)) (c.flow.process e now).1 bare lane position p h sent := by
  obtain ⟨d, of, same⟩ := run.checked_of_run on
  have off : c.flow.leg? ≠ some .tearDown := by
    rw [on]
    nofun
  have called := Flow.call_checked off (.process e now)
  rw [← same.flow] at on live accepted called ⊢
  obtain ⟨past, s, at_, last, on', -⟩ := of.rests.on_run on
  have queue := on'.stages_eq at_
  have runs : (d.entry (Call.process e now).checked).Runs s (d.plan.drop (past + 1)) :=
    ⟨live, on, queue⟩
  have takes : (d.entry (Call.process e now).checked).Takes e.checked bare :=
    ⟨⟨now, rfl⟩, (d.flow.accepts_checked e).trans accepted, (Event.phase_checked e).trans phase⟩
  have legal : (Call.process e now).checked.Legal := Call.legal_checked trivial
  obtain ⟨past, lane, position, p, h, sent, at_, reply⟩ := of.reply legal runs takes
  refine ⟨d.plan, past, s, lane, position, p, h, sent, at_, ?_, ?_, ?_⟩
  · rw [← same.begun]
    omega
  · have within := (List.getElem?_eq_some_iff.1 reply.at_).1
    rw [Flow.runningPosition?, queue, List.head?_cons, Option.bind_some, Stage.position?,
      reply.place, Option.filter_some, if_pos (by simpa using within)]
  · simp only [entry, called] at reply
    exact reply

/-- A completion of a phase is accepted that the flow waits on. -/
theorem Reported.accepted (reported : c.Reported m patch u e)
    (run : Unchecked build script chains c) :
    c.flow.awaited? patch.index = some m.token ∧ c.flow.accepts e = true := by
  obtain ⟨kind, token⟩ := reported.completion
  obtain ⟨bare, phase, index, -⟩ := reported.plain
  obtain ⟨q, named, own⟩ := reported.names
  have slotted := run.slotted
  obtain ⟨slot, filled⟩ := Flow.mem_outstanding_iff_slot.1 reported.waits
  obtain ⟨m', mem, slot_eq, same, -⟩ := slotted.slots slot _ filled
  obtain rfl := slotted.unique mem reported.sent same
  have awaited : c.flow.awaited? patch.index = some m'.token := by
    rw [← slot_eq, Command.slot, named] at filled
    exact own ▸ filled
  refine ⟨awaited, ?_⟩
  simp [Flow.accepts, run.going_of_run reported.on, reported.on, kind, phase, index, awaited, token]

/-- A completion that names no container leaves its phase with the container that it had. -/
theorem Unchecked.container?_of_plain (run : Unchecked build script chains c)
    (on : c.flow.leg? = some .run) (live : c.flow.aborted = false)
    (accepted : c.flow.accepts e = true) (phase : e.phase = some bare)
    (plain : bare.hasContainer = false) {position : Nat}
    (place : c.flow.runningPosition? bare.index = some position) (now : Moment) :
    (c.flow.process e now).1.container? position = c.flow.container? position := by
  obtain ⟨plan, past, s, lane, position', p, h, sent, at_, -, place', reply⟩ :=
    run.reply on live accepted phase now
  obtain rfl := Flow.runningPosition?_inj rfl place place'
  exact reply.container?_eq at_ plain

/-- The token of the update was issued for the phase that the update names. -/
theorem Reported.issued (reported : c.Reported m patch u e)
    (run : Unchecked build script chains c) :
    Flow.Posted c.postings (c.begun.length - 1) patch.index u.token ∧
      c.flow.issuedFor patch.index u.token = true := by
  have posted := run.posted_of_awaited reported.on (reported.accepted run).1
  rw [← reported.update.2.1] at posted
  exact ⟨posted, (run.issued_iff reported.on _ _).2 posted⟩

/-- An update that comes before the completion is kept. -/
theorem Reported.container?_of_first (reported : c.Reported m patch u e)
    (run : Unchecked build script chains c) (now later : Moment) {position : Nat} {p : Phase}
    (place : c.flow.runningPosition? patch.index = some position)
    (at_ : c.flow.build.phases[position]? = some p) :
    ((c.flow.process u now).1.process e later).1.container? position =
      some (p.applyContainer patch).container := by
  obtain ⟨update, -, names⟩ := reported.update
  obtain ⟨success, container⟩ := reported.container
  obtain ⟨bare, phase, index, plain⟩ := reported.plain
  obtain ⟨position', place', taken⟩ := run.process_of_issued reported.on update success names
    container (reported.issued run).2 now
  obtain rfl := Flow.runningPosition?_inj rfl place place'
  have run' : Unchecked build script chains (c.then_ (.process u now)) := run.step _ trivial
  have flow : (c.then_ (.process u now)).flow =
      c.flow.modifyPhase position (·.applyContainer patch) := congrArg Prod.fst taken
  have on : (c.then_ (.process u now)).flow.leg? = some .run := flow ▸ reported.on
  have live : (c.then_ (.process u now)).flow.aborted = false := flow ▸ reported.live
  have accepted : (c.then_ (.process u now)).flow.accepts e = true :=
    flow ▸ (reported.accepted run).2
  have still : (c.then_ (.process u now)).flow.runningPosition? bare.index = some position := by
    rw [flow, index, ← place]
    simp [Flow.runningPosition?, Flow.modifyPhase]
  have kept := run'.container?_of_plain on live accepted phase plain still later
  rw [taken, ← flow, kept, flow, Flow.container?_update at_]

/-- An update that trails a completion is kept as long as the stage is running. -/
theorem Reported.container?_of_stays (reported : c.Reported m patch u e)
    (run : Unchecked build script chains c) (now later : Moment) {position : Nat} {p : Phase}
    (place : c.flow.runningPosition? patch.index = some position)
    (completed : (c.flow.process e now).1.container? position = some p.container)
    (stays : (c.flow.process e now).1.stages = c.flow.stages) :
    ((c.flow.process e now).1.process u later).1.container? position =
      some (p.applyContainer patch).container := by
  obtain ⟨update, -, names⟩ := reported.update
  obtain ⟨success, container⟩ := reported.container
  obtain ⟨bare, phase, -⟩ := reported.plain
  obtain ⟨plan, past, s, lane, position', p', h, sent, at_', -, -, reply⟩ :=
    run.reply reported.on reported.live (reported.accepted run).2 phase now
  obtain ⟨waits, -⟩ | ⟨leaves, -⟩ := reply.stays_or_leaves at_'
  · have run' : Unchecked build script chains (c.then_ (.process e now)) := run.step _ trivial
    have flow : (c.then_ (.process e now)).flow = h := waits
    have on : h.leg? = some .run := (congrArg List.head? reply.settled.frame.1).trans reported.on
    have issued : h.issuedFor patch.index u.token = true :=
      (reply.settled.issued reply.lane_at 0).2 (.inl (reported.issued run).2)
    obtain ⟨position'', place'', taken⟩ := run'.process_of_issued (flow ▸ on) update success names
      container (flow ▸ issued) later
    rw [flow] at place'' taken
    rw [waits] at completed stays ⊢
    obtain rfl := Flow.runningPosition?_inj stays place place''
    obtain ⟨q, at_q, same⟩ := Option.map_eq_some_iff.1 completed
    rw [taken, Flow.container?_update at_q, Phase.container_applyContainer same]
  · exact absurd stays leaves

/-- An update that trails the completion which ends its stage is dropped. -/
theorem Reported.dropped (reported : c.Reported m patch u e)
    (run : Unchecked build script chains c) (now later : Moment)
    (leaves : (c.flow.process e now).1.stages ≠ c.flow.stages) :
    (c.flow.process e now).1.process u later = ((c.flow.process e now).1, []) := by
  obtain ⟨bare, phase, -⟩ := reported.plain
  obtain ⟨plan, past, s, lane, position, p, h, sent, at_, begun, -, reply⟩ :=
    run.reply reported.on reported.live (reported.accepted run).2 phase now
  have run' : Unchecked build script chains (c.then_ (.process e now)) := run.step _ trivial
  obtain ⟨inTime, -⟩ | ⟨-, silent, unchanged⟩ :=
    run'.entry_heeds (.process u later) u later rfl reported.update.1
  · obtain ⟨on, -, patch', -, -, posted⟩ := inTime
    obtain ⟨-, stays⟩ | ⟨-, starts⟩ := reply.stays_or_leaves at_
    · exact absurd stays leaves
    · -- the token went out for the stage that is over, not for one that was started since
      have old : Flow.Posted (c.then_ (.process e now)).postings (c.begun.length - 1) patch.index
          u.token := by
        rw [postings_then_]
        exact posted_append.2 (.inl (reported.issued run).1)
      have same := run'.stage_of_posted on old posted
      have more := starts on
      rw [show ((c.then_ (.process e now)).entry (.process u later)).begun =
        (c.then_ (.process e now)).begun.length from rfl, begun_then_, List.length_append] at same
      omega
  · exact Prod.ext unchanged silent

/-- An update and a completion of one command, in both orders. -/
theorem Unchecked.trailing (run : Unchecked build script chains c)
    (reported : c.Reported m patch u e) (now later : Moment) :
    ∃ position p, c.flow.runningPosition? patch.index = some position ∧
      c.flow.build.phases[position]? = some p ∧
      ((c.flow.process u now).1.process e later).1.container? position =
        some (p.applyContainer patch).container ∧
      ((c.flow.process e now).1.stages = c.flow.stages →
        ((c.flow.process e now).1.process u later).1.container? position =
          some (p.applyContainer patch).container) ∧
      ((c.flow.process e now).1.stages ≠ c.flow.stages →
        (c.flow.process e now).1.process u later = ((c.flow.process e now).1, []) ∧
          (c.flow.process e now).1.container? position = some p.container) := by
  obtain ⟨bare, phase, index, plain⟩ := reported.plain
  have accepted := (reported.accepted run).2
  obtain ⟨plan, past, s, lane, position, p, h, sent, at_, -, place, reply⟩ :=
    run.reply reported.on reported.live accepted phase now
  have completed : (c.flow.process e now).1.container? position = some p.container := by
    rw [reply.container?_eq at_ plain, Flow.container?, reply.at_, Option.map_some]
  rw [index] at place
  exact ⟨position, p, place, reply.at_, reported.container?_of_first run now later place reply.at_,
    reported.container?_of_stays run now later place completed,
    fun leaves => ⟨reported.dropped run now later leaves, completed⟩⟩

/-- The completion of a phase with a token, which names no container. -/
def completed (token : Token) : Event :=
  { kind := .phaseEnd, buildId := ⟨"b"⟩, token, phase := some ⟨0, none, none, none⟩ }

/-- The command that goes out for the one phase of a build. -/
def onlyCommand (c : Course) : Command :=
  .runPhase ⟨2⟩ c.flow.build { id := "p", status := .inFlight, runResults := [.inFlight] }

theorem reported_underWay :
    underWay.Reported (onlyCommand underWay) ⟨0, some "c", none, none⟩ (reported ⟨2⟩)
      (completed ⟨2⟩) where
  on := by cbv
  live := by cbv
  sent := List.mem_of_getElem? (i := 1) (by cbv)
  waits := Flow.mem_outstanding_iff_slot.2 ⟨some 0, by cbv⟩
  names := ⟨_, rfl, rfl⟩
  update := ⟨rfl, rfl, rfl⟩
  container := ⟨rfl, rfl⟩
  completion := ⟨rfl, rfl⟩
  plain := ⟨_, rfl, rfl, rfl⟩

theorem trailing_underWay :
    underWay.Reported (onlyCommand underWay) ⟨0, some "c", none, none⟩ (reported ⟨2⟩)
        (completed ⟨2⟩) ∧
      (underWay.flow.process (completed ⟨2⟩) Moment.origin).1.stages = underWay.flow.stages ∧
      ∃ position p, underWay.flow.build.phases[position]? = some p ∧
        ((underWay.flow.process (completed ⟨2⟩) Moment.origin).1.process (reported ⟨2⟩)
          Moment.origin).1.container? position =
            some (p.applyContainer ⟨0, some "c", none, none⟩).container := by
  have stays : (underWay.flow.process (completed ⟨2⟩) Moment.origin).1.stages =
      underWay.flow.stages := by cbv
  obtain ⟨position, p, -, at_, -, kept, -⟩ := Unchecked.trailing unchecked_underWay
    reported_underWay Moment.origin Moment.origin
  exact ⟨reported_underWay, stays, position, p, at_, kept stays⟩

/-- A build of one phase with one provider, which is under way. -/
def lone : Course :=
  let id : BuildId := ⟨"b"⟩
  let chains : Chains := { shortChains with runPhase := [⟨.runPhase, 0, 0⟩] }
  let begun := (idle { id, createdAt := Moment.origin } none chains).then_ (.start Moment.origin)
  begun.then_ (.process
    { kind := .setupEnd, buildId := id, token := ⟨1⟩, stages := some [[{ id := "p" }]] }
    Moment.origin)

/-- The completion ends the stage. If it comes first, the container that the update names is
lost. -/
theorem trailing_lost :
    Unchecked { id := ⟨"b"⟩, createdAt := Moment.origin } none
        { shortChains with runPhase := [⟨.runPhase, 0, 0⟩] } lone ∧
      lone.Reported (onlyCommand lone) ⟨0, some "c", none, none⟩ (reported ⟨2⟩) (completed ⟨2⟩) ∧
      lone.flow.runningPosition? 0 = some 0 ∧
      ((lone.flow.process (reported ⟨2⟩) Moment.origin).1.process (completed ⟨2⟩)
        Moment.origin).1.container? 0 = some (some "c", none, none) ∧
      ((lone.flow.process (completed ⟨2⟩) Moment.origin).1.process (reported ⟨2⟩)
        Moment.origin).1.container? 0 = some (none, none, none) := by
  refine ⟨.step (.start Moment.origin) _ trivial, ?_, by cbv, by cbv, by cbv⟩
  exact {
    on := by cbv
    live := by cbv
    sent := List.mem_of_getElem? (i := 1) (by cbv)
    waits := Flow.mem_outstanding_iff_slot.2 ⟨some 0, by cbv⟩
    names := ⟨_, rfl, rfl⟩
    update := ⟨rfl, rfl, rfl⟩
    container := ⟨rfl, rfl⟩
    completion := ⟨rfl, rfl⟩
    plain := ⟨_, rfl, rfl, rfl⟩ }

end Trailing

end Course
end BuildPipeline
