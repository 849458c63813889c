import BuildPipeline.Proofs.Engine.Settlement

/-!
What the calls on an engine come to. A call that names a build keeps the engine orderly, touches no
other build, and turns the flow of its build as `Engine.Turned` tells (`Engine.Moves`). The flow is
left alone, called and settled, begun or dropped. There is one lemma for each call
(`Orderly.onEvent`, `Orderly.abort`, `Orderly.start`, `Orderly.onFlowEnd`), and one for polling,
which takes the deadlines that are due out of those that are set.
-/

namespace BuildPipeline

open Time (Clock Moment Span)

/-- A call leaves a deadline to the flow if it answers another command or none. -/
def Flow.spares (f : Flow) : Call → Deadline → Bool
  | .process e _, d => !f.accepts e || d.token ≠ e.token
  | .start _, _ | .abort _, _ => true

theorem Course.spares_iff {c : Course} {call : Call} {d : Deadline} :
    c.flow.spares call d = true ↔ ∀ e, (c.entry call).taken? = some e → d.token ≠ e.token := by
  cases call with
  | start now => exact iff_of_true rfl fun e taken => by cases taken
  | abort now => exact iff_of_true rfl fun e taken => by cases taken
  | process e now =>
      cases accepted : c.flow.accepts e with
      | false => simp [Flow.spares, entry, Entry.taken?, accepted]
      | true => simp [Flow.spares, entry, Entry.taken?, accepted]

namespace Engine

/-- What becomes of the flow of a build and of its deadlines. -/
inductive Turned (id : BuildId) (e e' : Engine) (acts : List Act) : Prop
  | idle (same : e' = e) (silent : sentBy acts = [])
  | called {build : Build} {script : Option String} {first c : Course} {call : Call}
      (own : build.id = id) (was : e.flows.get? id = some first.flow)
      (settlement : Settlement build script e.chains first call e.desk
        ((e.live id).filter (first.flow.spares call)) c e' acts)
  | begun {build : Build} {script : Option String} {c : Course} {now : Moment}
      (own : build.id = id) (was : e.flows.get? id = none)
      (settlement : Settlement build script e.chains (Course.idle build script e.chains)
        (.start now) e.desk [] c e' acts)
  | dropped (gone : e'.flows.get? id = none) (none_ : e'.live id = []) (silent : sentBy acts = [])

/-- A call that names a build. -/
structure Moves (due : List Deadline) (id : BuildId) (e e' : Engine) (acts : List Act) : Prop where
  orderly : e'.Orderly due
  confined : Confined id e e' acts
  turned : Turned id e e' acts

section Moves

variable {e e' : Engine} {due due' : List Deadline} {id : BuildId} {acts acts' : List Act}
  {f : Flow} {effects : List Effect} {build : Build} {script : Option String} {first c : Course}
  {call : Call} {event : Event} {left : List Deadline} {desk : Desk} {chains : Chains} {b : Build}

theorem Moves.idle (orderly : e.Orderly due) (silent : ∀ a ∈ acts, a.build? = none)
    (unsent : sentBy acts = []) : Moves due id e e acts :=
  ⟨orderly, .refl fun a mem => Act.within_of_silent (silent a mem), .idle rfl unsent⟩

theorem Settlement.congr
    (h : Settlement build script chains first call desk left c e' acts)
    (sent : sentBy acts' = sentBy acts) :
    Settlement build script chains first call desk left c e' acts' := by
  obtain ⟨⟨ended, handled⟩, flow⟩ := h
  exact ⟨⟨ended, handled.congr sent rfl rfl⟩, sent ▸ flow⟩

/-- A call on an active flow. -/
theorem Orderly.called (orderly : e.Orderly due) (at_ : e.flows.get? id = some f)
    (legal : call.Legal) (left : commands effects = commands (f.call call).2)
    (over_ : ends effects = ends (f.call call).2)
    (own : ∀ x ∈ effects, x.build.id = f.build.id) :
    (e.settle id (f.call call).1 effects).1.Orderly due ∧
      Confined id e (e.settle id (f.call call).1 effects).1
        (e.settle id (f.call call).1 effects).2 ∧
      ∃ build script first c, build.id = id ∧ f = first.flow ∧
        c.flow = (e.desk.settle (f.call call).1 {} effects).flow ∧
        Settlement build script e.chains first call e.desk (e.live id) c
          (e.settle id (f.call call).1 effects).1 (e.settle id (f.call call).1 effects).2 := by
  have going := orderly.going id f at_
  obtain ⟨build, script, first, rfl, rfl, of, made⟩ := orderly.flows id f at_
  have handling := (Handling.of_legal of legal going).congr rfl left over_
  have owns : Flow.Owns first.flow effects (first.flow.call call).1 :=
    ⟨(Flow.owns_call first.flow call).id, own⟩
  obtain ⟨orderly', confined, c, same, settlement⟩ :=
    orderly.settle handling (.of_owns owns of.ids.1) made
  exact ⟨orderly', confined, build, script, first, c, rfl, rfl, same, settlement⟩

/-! ## Events -/

/-- The engine when a flow is going to take an event. An event that the flow is going to accept
cancels the deadline of its command. -/
def answered (e : Engine) (f : Flow) (event : Event) : Engine :=
  { e with
    deadlines :=
      if f.accepts event then e.deadlines.cancel (event.buildId, event.token) else e.deadlines }

theorem onEvent_of_active (valid : event.validate = .ok ())
    (at_ : e.flows.get? event.buildId = some f) :
    e.onEvent event =
      (((e.answered f event).settle event.buildId (f.call (.process event e.clock.now)).1
          (f.call (.process event e.clock.now)).2).1,
        ((e.answered f event).settle event.buildId (f.call (.process event e.clock.now)).1
          (f.call (.process event e.clock.now)).2).2, .ok ()) := by
  have same : (if f.accepts event then
      { e with deadlines := e.deadlines.cancel (event.buildId, event.token) } else e) =
        e.answered f event := by
    unfold answered
    split <;> rfl
  simp only [Engine.onEvent, valid, at_, same]
  rfl

/-- Why an event is not routed. -/
def eventRefusal (event : Event) : Refusal :=
  match event.validate with
  | .error defect => .invalidEvent defect
  | .ok () => .flowNotFound event.buildId

theorem onEvent_of_idle (none_ : event.validate = .ok () → e.flows.get? event.buildId = none) :
    e.onEvent event = (e, [], .error (eventRefusal event)) := by
  unfold Engine.onEvent eventRefusal
  cases valid : event.validate with
  | error defect => rfl
  | ok =>
      rw [none_ valid]

/-- An event is handed to an active flow, or to none. -/
theorem routed_or_idle (e : Engine) (event : Event) :
    (∃ f, event.validate = .ok () ∧ e.flows.get? event.buildId = some f) ∨
      (event.validate = .ok () → e.flows.get? event.buildId = none) := by
  cases at_ : e.flows.get? event.buildId with
  | none => exact .inr fun _ => rfl
  | some f =>
      by_cases valid : event.validate = .ok ()
      · exact .inl ⟨f, valid, rfl⟩
      · exact .inr fun valid' => absurd valid' valid

/-- An event that is accepted cancels the deadline of its command and no other. -/
theorem Orderly.answered (orderly : e.Orderly due) (f : Flow) (event : Event) (now : Moment) :
    (e.answered f event).Orderly due ∧ Confined event.buildId e (e.answered f event) [] ∧
      (e.answered f event).live event.buildId =
        (e.live event.buildId).filter (f.spares (.process event now)) := by
  unfold Engine.answered
  split
  · rename_i accepted
    obtain ⟨sound, live⟩ := orderly.sound.cancel (event.buildId, event.token)
    have items := Deadlines.items_cancel e.deadlines (event.buildId, event.token)
    refine ⟨⟨⟨sound, ?_, ?_⟩, orderly.going⟩,
      ⟨rfl, fun _ _ => rfl, fun other ne => .of_eq ?_, List.forall_mem_nil _⟩, ?_⟩
    · rw [set_, items]
      exact orderly.flows
    · rw [set_, items]
      exact orderly.owners
    · simp only [Engine.live, live, List.filter_filter]
      refine List.filter_congr fun d _ => ?_
      by_cases own : d.buildId = other
      · have apart : d.key ≠ (event.buildId, event.token) :=
          fun same => ne (own.symm.trans (Prod.mk.inj same).1)
        simp [own, apart]
      · simp [own]
    · simp only [Engine.live, live, List.filter_filter]
      refine List.filter_congr fun d _ => ?_
      by_cases own : d.buildId = event.buildId
      · simp [Flow.spares, accepted, Deadline.key, own]
      · simp [own]
  · rename_i rejected
    refine ⟨orderly, .refl (List.forall_mem_nil _), (List.filter_eq_self.2 fun d _ => ?_).symm⟩
    simp [Flow.spares, rejected]

/-- An event that is handed to a flow. -/
theorem Orderly.handed (orderly : e.Orderly due) (valid : event.validate = .ok ())
    (at_ : e.flows.get? event.buildId = some f) :
    (e.onEvent event).1.Orderly due ∧
      Confined event.buildId e (e.onEvent event).1 (e.onEvent event).2.1 ∧
      ∃ build script first c, build.id = event.buildId ∧ f = first.flow ∧
        Settlement build script e.chains first (.process event e.clock.now) e.desk
          ((e.live event.buildId).filter (f.spares (.process event e.clock.now))) c
          (e.onEvent event).1 (e.onEvent event).2.1 := by
  obtain ⟨cancelled, confined, live⟩ := orderly.answered f event e.clock.now
  have legal : Call.Legal (.process event e.clock.now) := (Event.of_validate valid).2
  rw [onEvent_of_active valid at_]
  obtain ⟨after, confined', build, script, first, c, own, same, -, settlement⟩ :=
    cancelled.called at_ legal rfl rfl (Flow.owns_call f _).own
  rw [live] at settlement
  exact ⟨after, confined.trans confined', build, script, first, c, own, same, settlement⟩

/-- A completion that was accepted is of a command that is waited on no more. -/
theorem Orderly.settled_of_accepted {g : Flow} (orderly : e.Orderly due)
    (valid : event.validate = .ok ()) (at_ : e.flows.get? event.buildId = some f)
    (accepted : f.accepts event = true)
    (there : (e.onEvent event).1.flows.get? event.buildId = some g) :
    event.token ∉ g.outstanding := by
  intro waits
  obtain ⟨-, -, build, script, first, c, own, rfl, settlement⟩ := orderly.handed valid at_
  rcases settlement.waits (own ▸ there) waits with ⟨-, unanswered⟩ | ⟨late, -⟩
  · exact unanswered event (Course.taken?_eq_some.2 ⟨_, rfl, accepted⟩) rfl
  · obtain ⟨ended, h⟩ := settlement.handled
    obtain ⟨m, sent, token⟩ := h.slotted.sent (h.slotted.settles accepted e.clock.now).1
    have early := h.slotted.number_le sent
    rw [token] at early
    omega

theorem Orderly.onEvent (orderly : e.Orderly due) (event : Event) :
    Moves due event.buildId e (e.onEvent event).1 (e.onEvent event).2.1 := by
  rcases e.routed_or_idle event with ⟨f, valid, at_⟩ | idle
  · obtain ⟨after, confined, build, script, first, c, own, rfl, settlement⟩ :=
      orderly.handed valid at_
    exact ⟨after, confined, .called own at_ settlement⟩
  · rw [onEvent_of_idle idle]
    exact .idle orderly (List.forall_mem_nil _) rfl

/-! ## Other calls -/

theorem Confined.append (confined : Confined id e e' acts)
    (silent : ∀ a ∈ acts', a.build? = none) : Confined id e e' (acts ++ acts') :=
  ⟨confined.frame, confined.flows, confined.live, List.forall_mem_append.2
    ⟨confined.within, fun a mem => Act.within_of_silent (silent a mem)⟩⟩

theorem silent_killing (ids : List String) :
    sentBy (killing ids) = [] ∧ ∀ a ∈ killing ids, a.build? = none := by
  unfold killing
  split
  · exact ⟨rfl, List.forall_mem_nil _⟩
  · exact ⟨rfl, List.forall_mem_singleton.2 rfl⟩

/-- What an abort has to tell: only the first one publishes the build. -/
def abortEffects (f : Flow) (now : Moment) : List Effect :=
  if f.aborted then [] else [(f.abort now).1.snapshot]

theorem abortEffects_silent (f : Flow) (now : Moment) :
    commands (abortEffects f now) = [] ∧ ends (abortEffects f now) = [] ∧
      ∀ x ∈ abortEffects f now, x.build.id = f.build.id := by
  unfold abortEffects
  split
  · exact ⟨rfl, rfl, List.forall_mem_nil _⟩
  · exact ⟨rfl, rfl, List.forall_mem_singleton.2 (Flow.owns_call f (.abort now)).id⟩

theorem abort_of_active (at_ : e.flows.get? id = some f) :
    e.abort id =
      ((e.settle id (f.call (.abort e.clock.now)).1 (abortEffects f e.clock.now)).1,
        (e.settle id (f.call (.abort e.clock.now)).1 (abortEffects f e.clock.now)).2 ++
          killing (f.abort e.clock.now).2,
        some ⟨(f.abort e.clock.now).2, (f.abort e.clock.now).1.build⟩) := by
  simp only [Engine.abort, at_]
  rfl

theorem abort_of_idle (none_ : e.flows.get? id = none) : e.abort id = (e, [], none) := by
  simp only [Engine.abort, none_]

theorem Orderly.abort (orderly : e.Orderly due) (id : BuildId) :
    Moves due id e (e.abort id).1 (e.abort id).2.1 := by
  cases at_ : e.flows.get? id with
  | none =>
      rw [abort_of_idle at_]
      exact .idle orderly (List.forall_mem_nil _) rfl
  | some f =>
      obtain ⟨left, over_, own⟩ := abortEffects_silent f e.clock.now
      have legal : Call.Legal (.abort e.clock.now) := trivial
      obtain ⟨after, confined, build, script, first, c, own', rfl, -, settlement⟩ :=
        orderly.called at_ legal left over_ own
      obtain ⟨unsent, silent⟩ := silent_killing (first.flow.abort e.clock.now).2
      have all : (e.live id).filter (first.flow.spares (.abort e.clock.now)) = e.live id :=
        List.filter_eq_self.2 fun _ _ => rfl
      rw [abort_of_active at_]
      rw [← all] at settlement
      exact ⟨after, confined.append silent,
        .called own' at_ (settlement.congr (by simp [unsent]))⟩

/-- A build that has no flow has no deadlines. -/
theorem Filed.bare (filed : e.Filed due) (none_ : e.flows.get? id = none) :
    (∀ d ∈ e.set_, d.buildId ≠ id) ∧ e.live id = [] := by
  have other : ∀ d ∈ e.set_, d.buildId ≠ id := by
    rintro d mem rfl
    exact filed.owners d mem none_
  refine ⟨other, List.filter_eq_nil_iff.2 fun d mem => ?_⟩
  simpa using other d (e.deadlines.live_subset mem)

theorem start_of_free (parked : b.status = .parked) (none_ : e.flows.get? id = none) :
    e.start id b script =
      ((e.settle id ((Course.idle { b with id } script e.chains).flow.call
          (.start e.clock.now)).1 ((Course.idle { b with id } script e.chains).flow.call
          (.start e.clock.now)).2).1,
        (e.settle id ((Course.idle { b with id } script e.chains).flow.call
          (.start e.clock.now)).1 ((Course.idle { b with id } script e.chains).flow.call
          (.start e.clock.now)).2).2, .ok ()) := by
  have free : e.flows.contains id = false := by simp [FlowTable.contains, none_]
  simp only [Engine.start, parked, ne_eq, not_true_eq_false, if_false, free, Bool.false_eq_true]
  rfl

/-- Why a build is not started. -/
def startRefusal (id : BuildId) (b : Build) : Refusal :=
  if b.status ≠ .parked then .notParked id b.status else .alreadyActive id

theorem start_of_refused (taken : b.status = .parked → e.flows.get? id ≠ none) :
    e.start id b script = (e, [], .error (startRefusal id b)) := by
  unfold Engine.start startRefusal
  split
  · rfl
  · rename_i parked
    have active : e.flows.contains id = true :=
      Option.isSome_iff_ne_none.2 (taken (Classical.not_not.1 parked))
    rw [if_pos active]

/-- A flow that is started. -/
theorem Orderly.started (orderly : e.Orderly []) (none_ : e.flows.get? id = none) (b : Build)
    (script : Option String) (now : Moment) :
    let idle := Course.idle { b with id } script e.chains
    (e.settle id (idle.flow.call (.start now)).1 (idle.flow.call (.start now)).2).1.Orderly [] ∧
      Confined id e (e.settle id (idle.flow.call (.start now)).1 (idle.flow.call (.start now)).2).1
        (e.settle id (idle.flow.call (.start now)).1 (idle.flow.call (.start now)).2).2 ∧
      ∃ c, c.flow = (e.desk.settle (idle.flow.call (.start now)).1 {}
          (idle.flow.call (.start now)).2).flow ∧
        Settlement { b with id } script e.chains idle (.start now) e.desk (e.live id) c
          (e.settle id (idle.flow.call (.start now)).1 (idle.flow.call (.start now)).2).1
          (e.settle id (idle.flow.call (.start now)).1 (idle.flow.call (.start now)).2).2 := by
  intro idle
  have other := (orderly.bare none_).1
  have started : Handling { b with id } script e.chains idle (.start now)
      (idle.then_ (.start now)) (idle.entry (.start now)).effects [] none := .of_start now
  exact orderly.settle started (.of_owns (Flow.owns_call idle.flow (.start now)) rfl)
    fun d mem mine => absurd mine (other d (by simpa using mem))

theorem Orderly.start (orderly : e.Orderly []) (id : BuildId) (b : Build)
    (script : Option String) :
    Moves [] id e (e.start id b script).1 (e.start id b script).2.1 := by
  by_cases free : b.status = .parked ∧ e.flows.get? id = none
  · obtain ⟨after, confined, c, -, settlement⟩ :=
      orderly.started free.2 b script e.clock.now
    rw [(orderly.bare free.2).2] at settlement
    rw [start_of_free free.1 free.2]
    refine ⟨after, confined, .begun ?_ free.2 settlement⟩
    rfl
  · rw [start_of_refused (not_and.1 free)]
    exact .idle orderly (List.forall_mem_nil _) rfl

theorem Orderly.onFlowEnd (orderly : e.Orderly due) (b : Build) :
    Moves due b.id e (e.onFlowEnd b).1 (e.onFlowEnd b).2 := by
  unfold Engine.onFlowEnd
  split
  · obtain ⟨filed, confined, gone, none_⟩ := orderly.toFiled.drop b.id
    have about : Act.About b.id (.ended b) := ⟨b, rfl, rfl⟩
    refine ⟨⟨filed, fun id f at_ => ?_⟩, ⟨confined.frame, confined.flows, confined.live,
      List.forall_mem_singleton.2 about.within⟩, .dropped gone none_ rfl⟩
    by_cases own : id = b.id
    · rw [own] at at_
      cases gone.symm.trans at_
    · exact orderly.going id f ((confined.flows id own).symm.trans at_)
  · exact .idle orderly (List.forall_mem_nil _) rfl

/-- Whatever is set or due was set or due before. -/
theorem Orderly.mono (orderly : e.Orderly due) (less : ∀ d ∈ due', d ∈ due) : e.Orderly due' := by
  refine ⟨⟨orderly.sound, fun id f at_ => (orderly.flows id f at_).mono fun d mem _ => ?_,
    orderly.owners⟩, orderly.going⟩
  rcases List.mem_append.1 mem with set_ | now_
  · exact List.mem_append_left _ set_
  · exact List.mem_append_right _ (less d now_)

/-- The deadlines that are due are taken out of those that are set. -/
theorem Orderly.polled (orderly : e.Orderly []) (now : Nat) :
    { e with deadlines := (e.deadlines.poll now).2 }.Orderly (e.deadlines.poll now).1 := by
  have polled := orderly.sound.poll now
  refine ⟨⟨polled.sound, fun id f at_ => ?_, fun d mem => orderly.owners d (polled.items mem)⟩,
    orderly.going⟩
  refine (orderly.flows id f at_).mono fun d mem _ => ?_
  rw [List.append_nil]
  rcases List.mem_append.1 mem with left | fired
  · exact polled.items left
  · exact e.deadlines.live_subset (List.mem_filter.1 (polled.fired.mem_iff.1 fired)).1

/-- The time and the mailboxes have no part in this. -/
theorem Orderly.reset (orderly : e.Orderly due) (clock : Clock) (mailboxes : Mailboxes) :
    { e with clock, mailboxes }.Orderly due :=
  ⟨⟨orderly.sound, orderly.flows, orderly.owners⟩, orderly.going⟩

end Moves
end Engine
end BuildPipeline
