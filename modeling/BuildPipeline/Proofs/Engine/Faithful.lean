import BuildPipeline.Proofs.Engine.Isolation
import BuildPipeline.Proofs.Engine.Lives
import BuildPipeline.Proofs.Engine.Playing

/-!
The effect loop of an engine is faithful to its flows. What a call on a flow comes to is told by the
run of this flow alone, on the call and on a failure for every command that goes to a closed
mailbox, each at its turn (`Engine.Carried`): what goes out, what is published, and what the flow is
in the end. Where every mailbox is closed, a build that is started is over and gone at once. All
this is `Engine.Faithful`. Whatever a flow waits on between calls was handed to an open mailbox
since the flow was started (`Engine.Received`).
-/

namespace BuildPipeline

/-! ## What is carried out -/

/-- What is seen of some acts, if it is seen of each effect. -/
theorem filterMap_carryOutAll {α : Type} {mailboxes : Mailboxes} {see : Act → Option α}
    {ask : Effect → Option α} (each : ∀ x, (x.carryOut mailboxes).1.filterMap see = (ask x).toList)
    (all : List Effect) :
    (Effect.carryOutAll mailboxes all).1.filterMap see = all.filterMap ask := by
  induction all with
  | nil => rfl
  | cons x rest ih =>
      have first : (Effect.carryOutAll mailboxes (x :: rest)).1 =
          (x.carryOut mailboxes).1 ++ (Effect.carryOutAll mailboxes rest).1 := rfl
      rw [first, List.filterMap_append, each, ih, List.filterMap_cons]
      cases ask x <;> rfl

/-- What goes out is what is asked for and not refused. -/
theorem sent_carryOutAll (mailboxes : Mailboxes) (all : List Effect) :
    (Effect.carryOutAll mailboxes all).1.filterMap Act.sent? =
      (sends all).filter fun x => mailboxes.takes x.1 := by
  rw [sends, List.filter_filterMap]
  refine filterMap_carryOutAll (fun x => ?_) all
  cases x with
  | dispatch a m =>
      cases refused : mailboxes.refusal? a <;>
        simp [Effect.carryOut, Effect.sent?, Act.sent?, Mailboxes.takes, Option.filter, refused]
  | publish => rfl
  | finish => rfl

/-- Every copy that is asked for is published. -/
theorem published_carryOutAll (mailboxes : Mailboxes) (all : List Effect) :
    (Effect.carryOutAll mailboxes all).1.filterMap Act.published? = publishes all := by
  refine filterMap_carryOutAll (fun x => ?_) all
  cases x with
  | dispatch a m =>
      cases refused : mailboxes.refusal? a <;>
        simp [Effect.carryOut, Act.published?, refused] <;> rfl
  | publish => rfl
  | finish => rfl

namespace Course

variable {build : Build} {script : Option String} {chains : Chains} {c : Course} {a : Address}
  {m : Command}

/-- Commands go to addresses of the chains only. -/
theorem Of.mem_chain (of : Of build script chains c) (asked : (a, m) ∈ sends c.effects) :
    ∃ k, a ∈ chains.chain k := by
  obtain ⟨x, mem, sent⟩ := List.mem_filterMap.1 asked
  obtain ⟨n, entry, mem⟩ := List.mem_flatMap.1 mem
  have goes : (a, m) ∈ sends n.effects := List.mem_filterMap.2 ⟨x, mem, sent⟩
  have posted : Entry.posting n.stage (a, m) ∈ c.postings :=
    List.mem_flatMap.2 ⟨n, entry, List.mem_map_of_mem goes⟩
  have log := (of.logged.lines (Entry.lineOf n.stage m)).chain
  exact ⟨_, log.subset (List.mem_map_of_mem (mem_sentOn.2 ⟨posted, rfl⟩))⟩

end Course

namespace Engine

/-- How a call on the flow `f` of a build is carried out. `all` has the effects of the whole run, in
the order in which the flow asked for them, and `g` is the flow in the end. The commands go out that
are not refused, and copies are published in this order, so none overwrites a later one. A flow that
has ended is told and dropped. -/
structure Carried (id : BuildId) (f : Flow) (call : Call) (all : List Effect) (g : Flow)
    (e e' : Engine) (acts : List Act) : Prop where
  plays : e.desk.Plays f call all g
  done : acts = (Effect.carryOutAll e.mailboxes all).1 ++ (ends all).map .ended
  sent : acts.filterMap Act.sent? = (sends all).filter fun x => e.mailboxes.takes x.1
  published : acts.filterMap Act.published? = publishes all
  ending : ends all = g.result
  flow : e'.flows.get? id = if g.ended then none else some g

/-- What the flow of a build waits on was handed to an open mailbox since the build was started. -/
def Received (id : BuildId) (steps : List Step) (e : Engine) : Prop :=
  ∀ f, e.flows.get? id = some f → ∀ t ∈ f.outstanding,
    ∃ s ∈ sinceStart id steps, ∃ a m, .sent a m ∈ s.acts ∧ m.build.id = id ∧ m.token = t ∧
      s.before.mailboxes.takes a = true

section Carried

variable {e : Engine} {id : BuildId} {build b : Build} {script : Option String} {first c : Course}
  {call : Call} {effects : List Effect} {f : Flow} {event : Event} {op : Operation}

/-- What settling comes to under an id. -/
theorem carried_settle (handling : Handling build script e.chains first call c effects [] none)
    (h : Unfolds e.desk first call c [] effects [] none) (minds : Minds id c.flow effects [] none) :
    ∃ c' all acts ended, Handling build script e.chains first call c' [] acts ended ∧
      Unfolds e.desk first call c' all [] acts ended ∧
      Carried id first.flow call all c'.flow e (e.settle id c.flow effects).1
        (e.settle id c.flow effects).2 := by
  obtain ⟨c', all, same, handling', h'⟩ := h.settle handling {}
  have ending := handling'.ending
  have ended := h'.ended
  rw [ends_nil, List.append_nil] at ending
  have acts : (e.settle id c.flow effects).2 =
      (Effect.carryOutAll e.mailboxes all).1 ++ (ends all).map .ended := by
    have done : (e.desk.settle c.flow {} effects).acts =
        (Effect.carryOutAll e.mailboxes all).1 := h'.acts
    rw [acts_settle minds, ← ended, done]
    cases (e.desk.settle c.flow {} effects).ended <;> rfl
  refine ⟨c', all, _, _, handling', h', h'.plays, acts, ?_, ?_, ended ▸ ending, ?_⟩
  · rw [acts, List.filterMap_append, sent_carryOutAll]
    simp [Act.sent?]
  · rw [acts, List.filterMap_append, published_carryOutAll]
    simp [Act.published?]
  · rw [settle_eq minds]
    cases finished : (e.desk.settle c.flow {} effects).ended with
    | none =>
        rw [finished] at ending
        rw [Flow.going_of_result ending.symm, keep, FlowTable.get?_put, same]
        rfl
    | some b =>
        rw [finished] at ending
        rw [(Flow.ended_of_result ending.symm).1, drop, FlowTable.get?_erase]
        rfl

/-- A build that is started. -/
theorem carried_start (parked : b.status = .parked) (none_ : e.flows.get? id = none)
    (script : Option String) :
    ∃ c all acts ended,
      Handling { b with id } script e.chains (Course.idle { b with id } script e.chains)
        (.start e.clock.now) c [] acts ended ∧
      Unfolds e.desk (Course.idle { b with id } script e.chains) (.start e.clock.now) c all []
        acts ended ∧
      Carried id (Course.idle { b with id } script e.chains).flow (.start e.clock.now) all c.flow e
        (e.start id b script).1 (e.start id b script).2.1 := by
  have live : ((Course.idle { b with id } script e.chains).then_
      (.start e.clock.now)).flow.aborted = false :=
    (Flow.steady_drive _ none e.clock.now).aborted
  rw [start_of_free parked none_]
  refine carried_settle (.of_start e.clock.now)
    (.begin e.desk (Course.grows_start e.clock.now) fun aborted => ?_)
    (.of_owns (Flow.owns_call (Course.idle { b with id } script e.chains).flow _) rfl)
  cases live.symm.trans aborted

/-- An event that is handed to a flow. -/
theorem Orderly.carried_onEvent {due : List Deadline} (orderly : e.Orderly due)
    (valid : event.validate = .ok ()) (at_ : e.flows.get? event.buildId = some f) :
    ∃ all g, Carried event.buildId f (.process event e.clock.now) all g e (e.onEvent event).1
      (e.onEvent event).2.1 := by
  have going := orderly.going _ f at_
  obtain ⟨build, script, c, own, rfl, of, -⟩ := orderly.flows _ f at_
  have legal : Call.Legal (.process event e.clock.now) := (Event.of_validate valid).2
  rw [onEvent_of_active valid at_]
  have handling : Handling build script (e.answered c.flow event).chains c
      (.process event e.clock.now) (c.then_ (.process event e.clock.now))
      (c.entry (.process event e.clock.now)).effects [] none := .of_legal of legal going
  have begun : Unfolds (e.answered c.flow event).desk c (.process event e.clock.now)
      (c.then_ (.process event e.clock.now)) []
      (c.entry (.process event e.clock.now)).effects [] none :=
    .begin _ (of.grows legal) of.off_process
  have minds : Minds event.buildId (c.then_ (.process event e.clock.now)).flow _ [] none :=
    .of_owns (Flow.owns_call c.flow (.process event e.clock.now)) (of.ids.1.trans own)
  obtain ⟨c', all, acts, ended, -, -, carried⟩ := carried_settle handling begun minds
  exact ⟨all, c'.flow, carried.plays, carried.done, carried.sent, carried.published,
    carried.ending, carried.flow⟩

/-- Where nothing takes a command, a build that is started has ended when the call returns. -/
theorem ended_of_shut (shut : ∀ k, ∀ a ∈ e.chains.chain k, e.mailboxes.takes a = false)
    {c : Course} {all : List Effect} {acts : List Act} {ended : Option Build} {now : Time.Moment}
    (handling : Handling build script e.chains (Course.idle build script e.chains) (.start now) c []
      acts ended)
    (h : Unfolds e.desk (Course.idle build script e.chains) (.start now) c all [] acts ended) :
    c.flow.ended = true := by
  have silent : sentBy acts = [] := by
    refine List.eq_nil_iff_forall_not_mem.2 fun m mem => ?_
    obtain ⟨⟨a, m⟩, sent, rfl⟩ := List.mem_map.1 mem
    rw [h.acts, sent_carryOutAll] at sent
    obtain ⟨asked, takes⟩ := List.mem_filter.1 sent
    have all_ : c.effects = all := h.asked.trans (List.append_nil all)
    obtain ⟨k, chained⟩ := handling.of.mem_chain (all_ ▸ asked)
    cases (shut k a chained).symm.trans takes
  rcases (Flow.poised_of_rests handling.of.rests).waits with ⟨ended, -, -⟩ | ⟨-, -, some_⟩
  · exact ended
  · obtain ⟨t, waits⟩ := List.exists_mem_of_ne_nil _ some_
    rcases handling.waits t waits with left | new
    · exact (Course.not_leaves_idle now t left).elim
    · rw [silent] at new
      cases new

/-! ## What is received -/

/-- What goes out in routing events goes to open mailboxes. -/
theorem Orderly.takes_onEvents {due : List Deadline} (orderly : e.Orderly due)
    (events : List Event) :
    ∀ x ∈ (e.onEvents events).2.filterMap Act.sent?, e.mailboxes.takes x.1 = true := by
  induction events generalizing e with
  | nil => exact List.forall_mem_nil _
  | cons event events ih =>
      have moves := orderly.onEvent event
      have same : (e.onEvent event).1.mailboxes = e.mailboxes := by rw [moves.confined.frame]
      rw [onEvents_cons, List.filterMap_append]
      refine List.forall_mem_append.2 ⟨fun x mem => ?_, fun x mem => same ▸ ih moves.orderly x mem⟩
      rw [(orderly.dealt_onEvent event).sent] at mem
      exact (List.mem_filter.1 mem).2

/-- What goes out in a step goes to open mailboxes. -/
theorem Orderly.takes_step (orderly : e.Orderly []) (op : Operation) :
    ∀ x ∈ (e.step op).acts.filterMap Act.sent?, e.mailboxes.takes x.1 = true := by
  cases names : op.build? with
  | some id =>
      have out : (e.step op).acts.filterMap Act.sent? =
          (e.handed op).filter fun x => e.mailboxes.takes x.1 := by
        cases starts : (e.step op).starts id with
        | false => exact (orderly.dealt_named names starts).sent
        | true =>
            obtain ⟨b, script, rfl, parked, none_⟩ := starts_iff.1 starts
            exact (handed_start parked none_ script).2.1
      rw [out]
      exact fun x mem => (List.mem_filter.1 mem).2
  | none =>
      rcases e.perform_of_unnamed names with rfl | ⟨clock, mailboxes, same⟩
      · exact (orderly.polled _).takes_onEvents _
      · rw [Engine.step, same]
        exact List.forall_mem_nil _

theorem Orderly.takes_run (orderly : e.Orderly []) (ops : List Operation) :
    ∀ s ∈ e.run ops, ∀ x ∈ s.acts.filterMap Act.sent?, s.before.mailboxes.takes x.1 = true := by
  induction ops generalizing e with
  | nil => exact List.forall_mem_nil _
  | cons op ops ih =>
      exact List.forall_mem_cons.2 ⟨orderly.takes_step op, ih (orderly.step op)⟩

theorem sinceStart_subset (id : BuildId) (steps : List Step) : sinceStart id steps ⊆ steps := by
  induction steps using List.reverseRecOn with
  | nil => exact List.nil_subset _
  | append_singleton steps s ih =>
      rw [sinceStart_append]
      split
      · exact List.subset_append_right _ _
      · exact List.append_subset.2
          ⟨List.subset_append_of_subset_left _ ih, List.subset_append_right _ _⟩

theorem Orderly.received (orderly : e.Orderly []) (none_ : e.flows.get? id = none)
    (ops : List Operation) : Received id (e.run ops) (e.after ops) := by
  intro f at_ t waits
  obtain ⟨⟨a, m⟩, sent, token⟩ := (Tally.run orderly id none_ ops).waits f at_ t waits
  obtain ⟨out, own⟩ := List.mem_filter.1 sent
  obtain ⟨s, since, out⟩ := List.mem_flatMap.1 out
  obtain ⟨act, done, told⟩ := List.mem_filterMap.1 out
  exact ⟨s, since, a, m, Act.eq_sent told ▸ done, of_decide_eq_true own, token,
    orderly.takes_run ops s (sinceStart_subset id _ since) (a, m) out⟩

/-! ## The engine -/

/-- An engine is faithful to its flows in the calls that carry them on. What it does not do leaves
it as it was. -/
structure Faithful (e : Engine) : Prop where
  start : ∀ (id : BuildId) (b : Build) (script : Option String), b.status = .parked →
    e.flows.get? id = none → (e.start id b script).2.2 = .ok () ∧
      ∃ all g, Carried id { build := { b with id }, script, chains := e.chains }
        (.start e.clock.now) all g e (e.start id b script).1 (e.start id b script).2.1
  refused : ∀ (id : BuildId) (b : Build) (script : Option String),
    (b.status = .parked → e.flows.get? id ≠ none) →
      e.start id b script = (e, [], .error (startRefusal id b))
  event : ∀ (event : Event) (f : Flow), event.validate = .ok () →
    e.flows.get? event.buildId = some f → (e.onEvent event).2.2 = .ok () ∧
      ∃ all g, Carried event.buildId f (.process event e.clock.now) all g e (e.onEvent event).1
        (e.onEvent event).2.1
  ignored : ∀ event : Event, (event.validate = .ok () → e.flows.get? event.buildId = none) →
    e.onEvent event = (e, [], .error (eventRefusal event))
  shut : (∀ k, ∀ a ∈ e.chains.chain k, e.mailboxes.takes a = false) →
    ∀ (id : BuildId) (b : Build) (script : Option String), b.status = .parked →
      e.flows.get? id = none → (e.start id b script).1.flows.get? id = none ∧
        ∃ told last, (e.start id b script).2.1 = told ++ [.ended last] ∧ last.id = id

theorem Orderly.faithful (orderly : e.Orderly []) : e.Faithful := by
  refine ⟨fun id b script parked none_ => ⟨?_, ?_⟩, fun id b script => start_of_refused,
    fun event f valid at_ => ⟨?_, orderly.carried_onEvent valid at_⟩,
    fun event => onEvent_of_idle, fun shut id b script parked none_ => ?_⟩
  · rw [start_of_free parked none_]
  · obtain ⟨c, all, acts, ended, -, -, carried⟩ := carried_start parked none_ script
    exact ⟨all, c.flow, carried⟩
  · rw [onEvent_of_active valid at_]
  · obtain ⟨c, all, acts, ended, handling, h, carried⟩ := carried_start parked none_ script
    have over_ := ended_of_shut shut handling h
    have flow := carried.flow
    rw [over_, if_pos rfl] at flow
    have result : ends all = [c.flow.build] := by
      rw [carried.ending, Flow.result, over_, if_pos rfl]
    have acts := carried.done
    rw [result] at acts
    exact ⟨flow, _, c.flow.build, acts, handling.of.ids.1⟩

end Carried

/-- The effect loop is faithful in every state that an engine gets to. -/
theorem faithful_after (chains : Chains) (mailboxes : Mailboxes) (stepTimeout : Option Time.Span)
    (clock : Time.Clock) (ops : List Operation) :
    let e : Engine := { chains, mailboxes, stepTimeout, clock }
    (e.after ops).Faithful ∧
      ∀ op id, Received id (e.run (ops ++ [op])) ((e.after ops).step op).after := by
  intro e
  have new := orderly_new chains mailboxes stepTimeout clock
  refine ⟨(new.after ops).faithful, fun op id => ?_⟩
  rw [← after_append]
  exact new.received rfl (ops ++ [op])

/-- An engine that has closed every mailbox. -/
def shutDown : Engine :=
  { chains := Course.shortChains
    mailboxes := { closed := Course.shortChains.setup ++ Course.shortChains.runPhase } }

/-- A build that nothing takes a command for is over when the call that starts it returns. -/
theorem faithful_after_shutDown :
    let b : Build := { id := ⟨"b"⟩, createdAt := Time.Moment.origin }
    (∃ all g, Carried ⟨"b"⟩ { build := b, script := none, chains := Course.shortChains }
      (.start shutDown.clock.now) all g shutDown (shutDown.start ⟨"b"⟩ b none).1
      (shutDown.start ⟨"b"⟩ b none).2.1) ∧
    (shutDown.start ⟨"b"⟩ b none).1.flows.get? ⟨"b"⟩ = none ∧
    ∃ told last, (shutDown.start ⟨"b"⟩ b none).2.1 = told ++ [.ended last] ∧ last.id = ⟨"b"⟩ := by
  intro b
  have engine : shutDown.Faithful := (faithful_after _ _ _ _ []).1
  refine ⟨(engine.start ⟨"b"⟩ b none rfl rfl).2, engine.shut (fun k => ?_) ⟨"b"⟩ b none rfl rfl⟩
  cases k <;> decide

end Engine
end BuildPipeline
