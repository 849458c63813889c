import BuildPipeline.Proofs.Engine.Isolation
import BuildPipeline.Proofs.Engine.Lives
import BuildPipeline.Proofs.Flow.Aborting
import BuildPipeline.Proofs.Flow.Reporting

/-!
What the calls on an engine tell of a flow. While a flow settles, its copies go to the store in the
order in which it published them, and what the refusal of its commands makes of it is told behind
(`PublishedCourse`). So a call tells as much as the flow does (`Flow.PublishedChange`), and if it
ended the flow, the end is announced once and the flow is gone (`Engine.FlowAfterCall`). There is
one lemma for each call.
-/

namespace BuildPipeline

open Time (Clock Moment Span)

/-- The build of a flow whose end was announced. -/
def Act.ended? : Act → Option Build
  | .ended build => some build
  | .sent .. | .published _ | .killed _ | .deleted _ => none

/-- The copies of a build that were published, in order. -/
def copiesFor (id : BuildId) (acts : List Act) : List Build :=
  (Engine.actsFor id acts).filterMap Act.published?

/-- The builds of an id with which flows ended, in the order of the announcements. -/
def endsFor (id : BuildId) (acts : List Act) : List Build :=
  (Engine.actsFor id acts).filterMap Act.ended?

section Acts

variable {id other : BuildId} {acts more : List Act}

theorem copiesFor_append :
    copiesFor id (acts ++ more) = copiesFor id acts ++ copiesFor id more := by
  rw [copiesFor, Engine.actsFor_append, List.filterMap_append]
  rfl

theorem endsFor_append : endsFor id (acts ++ more) = endsFor id acts ++ endsFor id more := by
  rw [endsFor, Engine.actsFor_append, List.filterMap_append]
  rfl

theorem for_of_within (within : ∀ a ∈ acts, a.Within other) (ne : id ≠ other) :
    copiesFor id acts = [] ∧ endsFor id acts = [] := by
  rw [copiesFor, endsFor, Engine.actsFor_eq_nil within ne]
  exact ⟨rfl, rfl⟩

theorem for_of_silent (silent : ∀ a ∈ acts, a.build? = none) :
    copiesFor id acts = [] ∧ endsFor id acts = [] := by
  have none_ : Engine.actsFor id acts = [] :=
    List.filter_eq_nil_iff.2 fun a mem => by simp [silent a mem]
  rw [copiesFor, endsFor, none_]
  exact ⟨rfl, rfl⟩

theorem actsFor_of_about (about : ∀ a ∈ acts, a.About id) : Engine.actsFor id acts = acts := by
  refine List.filter_eq_self.2 fun a mem => ?_
  obtain ⟨b, told, own⟩ := about a mem
  simp [told, own]

end Acts

/-! ## Settling -/

/-- What was told and is left to be told of a flow that settles. `first` is the flow as it was, and
`c` is what it has come to. -/
structure PublishedCourse (untold : Flow → Prop) (first : Flow) (build : Build)
    (script : Option String) (chains : Chains) (c : Course) (effects : List Effect)
    (acts : List Act) (ended : Option Build) : Prop where
  of : Course.Of build script chains c
  ending : ended.toList ++ ends effects = c.flow.result
  last : ends c.effects = c.flow.result
  published :
    first.PublishedChange untold (acts.filterMap Act.published? ++ publishes effects) c.flow
  silent : acts.filterMap Act.ended? = []

section PublishedCourse

variable {untold : Flow → Prop} {first : Flow} {build b : Build} {script : Option String}
  {chains : Chains} {c : Course} {effects : List Effect} {acts : List Act} {ended : Option Build}
  {a : Address} {command : Command} {why : Undeliverable}

theorem PublishedCourse.publish
    (h : PublishedCourse untold first build script chains c (.publish b :: effects) acts ended) :
    PublishedCourse untold first build script chains c effects (acts ++ [.published b]) ended := by
  refine ⟨h.of, h.ending, h.last, ?_, ?_⟩
  · have published := h.published
    rw [publishes_publish] at published
    rw [List.filterMap_append, List.append_assoc]
    exact published
  · rw [List.filterMap_append, h.silent]
    rfl

theorem PublishedCourse.finish
    (h : PublishedCourse untold first build script chains c (.finish b :: effects) acts ended) :
    PublishedCourse untold first build script chains c effects acts (some b) :=
  ⟨h.of, Flow.ending_finish h.ending, h.last, h.published, h.silent⟩

theorem PublishedCourse.sent
    (h : PublishedCourse untold first build script chains c (.dispatch a command :: effects) acts
      ended) :
    PublishedCourse untold first build script chains c effects (acts ++ [.sent a command])
      ended := by
  refine ⟨h.of, h.ending, h.last, ?_, ?_⟩
  · rw [List.filterMap_append]
    exact (List.append_nil (acts.filterMap Act.published?)).symm ▸ h.published
  · rw [List.filterMap_append, h.silent]
    rfl

/-- A command that is refused is answered at once, and what the failure changes is told. -/
theorem PublishedCourse.refused (accepted : c.flow.accepts (command.refused why) = true)
    (now : Moment)
    (h : PublishedCourse untold first build script chains c (.dispatch a command :: effects) acts
      ended) :
    PublishedCourse untold first build script chains (c.then_ (.process (command.refused why) now))
      (effects ++ (c.flow.process (command.refused why) now).2) acts ended := by
  have proper := command.proper_refused why
  have legal : Call.Legal (.process (command.refused why) now) := proper
  have going := (Flow.accepts_inv accepted).1
  have ending := h.ending
  rw [ends_dispatch, Flow.result_of_going going, List.append_eq_nil_iff] at ending
  refine ⟨h.of.step _ legal, ?_, h.of.ends_then_ legal going, ?_, h.silent⟩
  · rw [ends_append, ending.1, ending.2]
    exact h.of.ends_entry legal going
  · rw [publishes_append, ← List.append_assoc]
    exact h.published.onwards
      (h.of.rests.publishedChange_failure going proper (command.refused_isSuccess why) now)

theorem PublishedCourse.settle
    (h : PublishedCourse untold first build script chains c effects [] none)
    (desk : Desk) (s : Deadlines) :
    ∃ c', (desk.settle c.flow s effects).flow = c'.flow ∧
      PublishedCourse untold first build script chains c' [] (desk.settle c.flow s effects).acts
        (desk.settle c.flow s effects).ended := by
  suffices settled : ∃ c', (desk.settle c.flow s effects).flow = c'.flow ∧
      PublishedCourse untold first build script chains c' []
        ([] ++ (desk.settle c.flow s effects).acts)
        ((desk.settle c.flow s effects).ended <|> none) by
    simpa using settled
  refine desk.settle_rule (fun f _ effects acts ended => ∃ c', f = c'.flow ∧
    PublishedCourse untold first build script chains c' effects acts ended) ?_ ?_ ?_ ?_ ?_ []
    ⟨c, rfl, h⟩
  · rintro f s b rest acts ended ⟨c, rfl, h⟩
    exact ⟨c, rfl, h.publish⟩
  · rintro f s b rest acts ended ⟨c, rfl, h⟩
    exact ⟨c, rfl, h.finish⟩
  · rintro f s a command rest acts ended - ⟨c, rfl, h⟩
    exact ⟨c, rfl, h.sent⟩
  · rintro f s a command why rest acts ended - accepted ⟨c, rfl, h⟩
    exact ⟨_, rfl, h.refused accepted desk.now⟩
  · rintro f s a command why rest acts ended - - ⟨c, rfl, h⟩
    exact ⟨c, rfl, h.of, h.ending, h.last, h.published, h.silent⟩

end PublishedCourse

namespace Engine

/-- What comes of a flow when a call on it has settled. It goes on; or it has ended, it is gone, and
its end was announced once, with the build of the only end that it ever told. -/
inductive FlowAfterCall (id : BuildId) (untold : Flow → Prop) (first : Flow) (chains : Chains)
    (e' : Engine) (acts : List Act) : Prop
  | active (g : Flow) (there : e'.flows.get? id = some g)
      (published : first.PublishedChange untold (copiesFor id acts) g)
      (silent : endsFor id acts = [])
  | ends {build : Build} {script : Option String} {c : Course} (own : build.id = id)
      (of : Course.Of build script chains c) (ended : c.flow.ended = true)
      (last : BuildPipeline.ends c.effects = [c.flow.build]) (gone : e'.flows.get? id = none)
      (published : first.PublishedChange untold (copiesFor id acts) c.flow)
      (announced : endsFor id acts = [c.flow.build])

section FlowAfterCall

variable {e e' e'' : Engine} {due : List Deadline} {id : BuildId} {acts more : List Act}
  {f first : Flow} {effects : List Effect} {build b : Build} {script : Option String}
  {chains : Chains} {c : Course} {event : Event} {untold : Flow → Prop} {g : Flow}

theorem FlowAfterCall.published (result : FlowAfterCall id untold first chains e' acts)
    (there : e'.flows.get? id = some g) : first.PublishedChange untold (copiesFor id acts) g := by
  cases result with
  | active h there' published =>
      cases there'.symm.trans there
      exact published
  | ends _ _ _ _ gone => cases gone.symm.trans there

theorem FlowAfterCall.append (result : FlowAfterCall id untold first chains e' acts)
    (silent : ∀ a ∈ more, a.build? = none) :
    FlowAfterCall id untold first chains e' (acts ++ more) := by
  have quiet : copiesFor id more = [] ∧ endsFor id more = [] := for_of_silent silent
  obtain ⟨copies, over_⟩ := quiet
  cases result with
  | active g there published silent =>
      refine .active g there ?_ ?_
      · rwa [copiesFor_append, copies, List.append_nil]
      · rwa [endsFor_append, over_, List.append_nil]
  | ends own of ended last gone published announced =>
      refine .ends own of ended last gone ?_ ?_
      · rwa [copiesFor_append, copies, List.append_nil]
      · rwa [endsFor_append, over_, List.append_nil]

theorem FlowAfterCall.mono {untold' : Flow → Prop}
    (result : FlowAfterCall id untold first chains e' acts)
    (more : ∀ g, untold g → untold' g) : FlowAfterCall id untold' first chains e' acts := by
  cases result with
  | active g there published silent => exact .active g there (published.mono more) silent
  | ends own of ended last gone published announced =>
      exact .ends own of ended last gone (published.mono more) announced

/-- What comes of a flow later comes of it. -/
theorem FlowAfterCall.behind (later : FlowAfterCall id (· = g) g chains e' more)
    (published : first.PublishedChange untold (copiesFor id acts) g)
    (silent : endsFor id acts = []) :
    FlowAfterCall id untold first chains e' (acts ++ more) := by
  cases later with
  | active h there published' silent' =>
      refine .active h there ?_ ?_
      · rw [copiesFor_append]
        exact published.onwards published'
      · rw [endsFor_append, silent, silent']
        rfl
  | ends own of ended last gone published' announced =>
      refine .ends own of ended last gone ?_ ?_
      · rw [copiesFor_append]
        exact published.onwards published'
      · rw [endsFor_append, silent, announced]
        rfl

/-- What comes of a flow that settles. -/
theorem flowAfterCall_settle (minds : Minds id c.flow effects [] none)
    (course : PublishedCourse untold first build script chains c effects [] none)
    (own : build.id = id)
    (e : Engine) :
    FlowAfterCall id untold first chains (e.settle id c.flow effects).1
      (e.settle id c.flow effects).2 := by
  have mindful := minds.settle e.desk {}
  obtain ⟨c', same, after⟩ := course.settle e.desk {}
  have all := actsFor_of_about mindful.acts
  have ending := after.ending
  have published := after.published
  rw [ends_nil, List.append_nil] at ending
  rw [publishes_nil, List.append_nil] at published
  have copies : copiesFor id (e.desk.settle c.flow {} effects).acts =
      (e.desk.settle c.flow {} effects).acts.filterMap Act.published? := by rw [copiesFor, all]
  have over_ : endsFor id (e.desk.settle c.flow {} effects).acts = [] := by
    rw [endsFor, all, after.silent]
  rw [settle_eq minds]
  cases finished : (e.desk.settle c.flow {} effects).ended with
  | none =>
      refine .active c'.flow ?_ (copies ▸ published) over_
      rw [← same]
      exact FlowTable.get?_put e.flows id _
  | some b =>
      rw [finished] at ending
      obtain ⟨ended, rfl⟩ := Flow.ended_of_result ending.symm
      have about : c'.flow.build.id = id := mindful.ended _ finished
      have told : copiesFor id [.ended c'.flow.build] = [] ∧
          endsFor id [.ended c'.flow.build] = [c'.flow.build] := by
        simp [copiesFor, endsFor, actsFor, Act.build?, about, Act.published?, Act.ended?]
      refine .ends own after.of ended (after.last.trans ending.symm) ?_ ?_ ?_
      · exact FlowTable.get?_erase _ id
      · rwa [copiesFor_append, copies, told.1, List.append_nil]
      · rw [endsFor_append, over_, told.2]
        rfl

/-! ## Calls -/

/-- What comes of the flow to which an event is handed. -/
theorem Orderly.flowAfterCall_onEvent (orderly : e.Orderly due)
    (at_ : e.flows.get? event.buildId = some f) :
    FlowAfterCall event.buildId (fun g => g = f ∨ f.Defers event g) f e.chains (e.onEvent event).1
      (e.onEvent event).2.1 := by
  have going := orderly.going _ f at_
  by_cases valid : event.validate = .ok ()
  · have proper := (Event.of_validate valid).2
    obtain ⟨build, script, first, own, rfl, of, -⟩ := orderly.flows _ f at_
    have legal : Call.Legal (.process event e.clock.now) := proper
    have course : PublishedCourse (fun g => g = first.flow ∨ first.flow.Defers event g) first.flow
        build script e.chains (first.then_ (.process event e.clock.now))
        (first.flow.call (.process event e.clock.now)).2 [] none :=
      ⟨of.step _ legal, of.ends_entry legal going, of.ends_then_ legal going,
        of.rests.publishedChange_process going proper _, rfl⟩
    rw [onEvent_of_active valid at_]
    have owns := Flow.owns_call first.flow
    exact flowAfterCall_settle (.of_owns (owns _) (of.ids.1.trans own)) course own _
  · rw [onEvent_of_idle fun valid' => absurd valid' valid]
    exact .active f at_ ((Flow.PublishedChange.refl going).mono fun _ => .inl) rfl

/-- What the store learns when a flow is aborted. -/
theorem publishedChange_abort (going : f.ended = false) (now : Moment) :
    f.PublishedChange (· = f) (publishes (abortEffects f now)) (f.abort now).1 := by
  unfold abortEffects
  cases aborted : f.aborted with
  | true =>
      rw [Flow.abort_of_aborted aborted, if_pos rfl]
      exact .refl going
  | false => exact .told rfl

/-- What comes of a flow that is aborted. -/
theorem Orderly.flowAfterCall_abort (orderly : e.Orderly due) (at_ : e.flows.get? id = some f) :
    FlowAfterCall id (· = f) f e.chains (e.abort id).1 (e.abort id).2.1 := by
  have going := orderly.going _ f at_
  obtain ⟨build, script, first, own, rfl, of, -⟩ := orderly.flows _ f at_
  have legal : Call.Legal (.abort e.clock.now) := trivial
  obtain ⟨-, over_, within⟩ := abortEffects_silent first.flow e.clock.now
  have course : PublishedCourse (· = first.flow) first.flow build script e.chains
      (first.then_ (.abort e.clock.now)) (abortEffects first.flow e.clock.now) [] none := by
    refine ⟨of.step _ legal, ?_, of.ends_then_ legal going, publishedChange_abort going _, rfl⟩
    rw [over_]
    exact of.ends_entry legal going
  have owns : first.flow.Owns (abortEffects first.flow e.clock.now)
      (first.flow.call (.abort e.clock.now)).1 := ⟨(Flow.owns_call first.flow _).id, within⟩
  rw [abort_of_active at_]
  exact (flowAfterCall_settle (.of_owns owns (of.ids.1.trans own)) course own e).append
    (silent_killing _).2

/-- What comes of a flow that is started. -/
theorem flowAfterCall_start (parked : b.status = .parked) (none_ : e.flows.get? id = none)
    (script : Option String) :
    FlowAfterCall id (fun g => g.build = { b with id, status := .inFlight })
      (Course.idle { b with id } script e.chains).flow.takeOff e.chains (e.start id b script).1
      (e.start id b script).2.1 := by
  have ending : BuildPipeline.ends
      ((Course.idle { b with id } script e.chains).entry (.start e.clock.now)).effects =
        ((Course.idle { b with id } script e.chains).then_ (.start e.clock.now)).flow.result :=
    Course.ends_start e.clock.now
  have course : PublishedCourse (fun g => g.build = { b with id, status := .inFlight })
      (Course.idle { b with id } script e.chains).flow.takeOff { b with id } script e.chains
      ((Course.idle { b with id } script e.chains).then_ (.start e.clock.now))
      ((Course.idle { b with id } script e.chains).flow.call (.start e.clock.now)).2 [] none := by
    refine ⟨.start e.clock.now, ending, ?_,
      Flow.publishedChange_start { b with id } script e.chains _, rfl⟩
    rw [Course.effects_then_]
    exact ending
  rw [start_of_free parked none_]
  have owns := Flow.owns_call (Course.idle { b with id } script e.chains).flow
  exact flowAfterCall_settle (.of_owns (owns (.start e.clock.now)) rfl) course rfl e

/-- A build without a flow is left alone by events. -/
theorem onEvents_of_idle (orderly : e.Orderly due) (none_ : e.flows.get? id = none)
    (events : List Event) :
    (e.onEvents events).1.flows.get? id = none ∧ copiesFor id (e.onEvents events).2 = [] ∧
      endsFor id (e.onEvents events).2 = [] := by
  induction events generalizing e with
  | nil => exact ⟨none_, rfl, rfl⟩
  | cons event events ih =>
      have moves := orderly.onEvent event
      have first : (e.onEvent event).1.flows.get? id = none ∧
          copiesFor id (e.onEvent event).2.1 = [] ∧ endsFor id (e.onEvent event).2.1 = [] := by
        by_cases own : event.buildId = id
        · subst own
          rw [onEvent_of_idle fun _ => none_]
          exact ⟨none_, rfl, rfl⟩
        · exact ⟨(moves.confined.flows id (Ne.symm own)).trans none_,
            for_of_within moves.confined.within (Ne.symm own)⟩
      obtain ⟨gone, copies, over_⟩ := first
      obtain ⟨gone', copies', over_'⟩ := ih moves.orderly gone
      rw [onEvents_cons, copiesFor_append, endsFor_append, copies, copies', over_, over_']
      exact ⟨gone', rfl, rfl⟩

/-- What comes of a flow while failures are routed, its own and those of other flows. -/
theorem Orderly.flowAfterCall_onEvents (orderly : e.Orderly due) (at_ : e.flows.get? id = some f)
    {events : List Event} (fails : ∀ event ∈ events, event.isSuccess = false) :
    FlowAfterCall id (· = f) f e.chains (e.onEvents events).1 (e.onEvents events).2 := by
  induction events generalizing e f with
  | nil => exact .active f at_ (.refl (orderly.going id f at_)) rfl
  | cons event events ih =>
      obtain ⟨fails, rest⟩ := List.forall_mem_cons.1 fails
      have moves := orderly.onEvent event
      have chains_eq : (e.onEvent event).1.chains = e.chains := by rw [moves.confined.frame]
      have later : ∀ {g : Flow}, (e.onEvent event).1.flows.get? id = some g →
          FlowAfterCall id (· = g) g e.chains ((e.onEvent event).1.onEvents events).1
            ((e.onEvent event).1.onEvents events).2 := fun there =>
        chains_eq ▸ ih moves.orderly there rest
      rw [onEvents_cons]
      by_cases own : event.buildId = id
      · subst own
        -- only a success may go untold, so nothing is left for the next event to bury
        have stays : ∀ g, g = f ∨ f.Defers event g → g = f := fun g why =>
          why.resolve_right fun defers => by cases fails.symm.trans defers.success
        cases orderly.flowAfterCall_onEvent at_ with
        | active g there published silent =>
            exact (later there).behind (published.mono stays) silent
        | ends own of ended last gone published announced =>
            obtain ⟨gone', copies, over_⟩ := onEvents_of_idle moves.orderly gone events
            refine .ends own of ended last gone' ?_ ?_
            · rw [copiesFor_append, copies, List.append_nil]
              exact published.mono stays
            · rw [endsFor_append, over_, List.append_nil, announced]
      · have there := (moves.confined.flows id (Ne.symm own)).trans at_
        obtain ⟨copies, over_⟩ := for_of_within moves.confined.within (Ne.symm own)
        exact (later there).behind (copies ▸ .refl (orderly.going id f at_)) over_

/-- A deadline that fires reports a failure. -/
theorem fails_expired (fired : List Deadline) :
    ∀ event ∈ fired.map Deadline.expiredEvent, event.isSuccess = false := by
  intro event mem
  obtain ⟨d, -, rfl⟩ := List.mem_map.1 mem
  rfl

/-- What comes of a flow while deadlines fire. -/
theorem Orderly.flowAfterCall_fire (orderly : e.Orderly []) (at_ : e.flows.get? id = some f) :
    FlowAfterCall id (· = f) f e.chains e.fireDeadlines.1 e.fireDeadlines.2.1 :=
  (orderly.polled e.clock.elapsed.nanos).flowAfterCall_onEvents at_ (fails_expired _)

/-- A build without a flow is left alone when deadlines fire. -/
theorem Orderly.fire_of_idle (orderly : e.Orderly []) (none_ : e.flows.get? id = none) :
    e.fireDeadlines.1.flows.get? id = none ∧ copiesFor id e.fireDeadlines.2.1 = [] ∧
      endsFor id e.fireDeadlines.2.1 = [] :=
  onEvents_of_idle (orderly.polled e.clock.elapsed.nanos) none_
    ((e.deadlines.poll e.clock.elapsed.nanos).1.map Deadline.expiredEvent)

/-! ## Requests -/

/-- A flow that is left alone. -/
theorem Orderly.flowAfterCall_idle (orderly : e.Orderly due) (at_ : e.flows.get? id = some f)
    (same : e'.flows.get? id = e.flows.get? id)
    (silent : copiesFor id acts = [] ∧ endsFor id acts = []) :
    FlowAfterCall id (· = f) f chains e' acts :=
  .active f (same.trans at_) (silent.1 ▸ .refl (orderly.going id f at_)) silent.2

/-- What comes of a flow when the engine is asked anything. Nothing is left untold but the success
of a phase whose stage goes on. -/
theorem Orderly.flowAfterCall_step (orderly : e.Orderly []) (r : Request)
    (at_ : e.flows.get? id = some f) :
    FlowAfterCall id
      (fun g => g = f ∨ ∃ event, r = .event event ∧ event.buildId = id ∧ f.Defers event g) f
      e.chains (e.step (.request r)).after (e.step (.request r)).acts := by
  have plain : ∀ {e' acts}, FlowAfterCall id (· = f) f e.chains e' acts → FlowAfterCall id
      (fun g => g = f ∨ ∃ event, r = .event event ∧ event.buildId = id ∧ f.Defers event g) f
      e.chains e' acts := fun result => result.mono fun _ => .inl
  cases names : (Operation.request r).build? with
  | some other =>
      by_cases own : other = id
      · subst own
        cases Operation.names names with
        | start _ b script =>
            have refused : e.start other b script = _ :=
              start_of_refused fun _ none_ => by cases none_.symm.trans at_
            refine plain (orderly.flowAfterCall_idle at_ ?_ ?_)
            · exact congrArg (·.1.flows.get? other) refused
            · change copiesFor other (e.start other b script).2.1 = [] ∧
                endsFor other (e.start other b script).2.1 = []
              rw [refused]
              exact ⟨rfl, rfl⟩
        | event event =>
            refine (orderly.flowAfterCall_onEvent at_).mono fun g why =>
              why.imp_right fun defers => ?_
            exact ⟨event, rfl, rfl, defers⟩
        | abort => exact plain (orderly.flowAfterCall_abort at_)
        | delete build =>
            exact plain (orderly.flowAfterCall_idle at_ rfl (for_of_silent (silent_delete build).2))
      · have confined := (orderly.named names).confined
        exact plain (orderly.flowAfterCall_idle at_ (confined.flows id (Ne.symm own))
          (for_of_within confined.within (Ne.symm own)))
  | none =>
      rcases e.perform_of_unnamed names with fire | ⟨clock, mailboxes, same⟩
      · cases fire
        exact plain (orderly.flowAfterCall_fire at_)
      · rw [Engine.step, same]
        exact plain (orderly.flowAfterCall_idle at_ rfl ⟨rfl, rfl⟩)

/-- A build that has no flow has none behind a request that does not start it. -/
theorem Orderly.idle_step (orderly : e.Orderly []) (r : Request) (none_ : e.flows.get? id = none)
    (old : (e.step (.request r)).starts id = false) :
    (e.step (.request r)).after.flows.get? id = none ∧
      copiesFor id (e.step (.request r)).acts = [] ∧
      endsFor id (e.step (.request r)).acts = [] := by
  cases names : (Operation.request r).build? with
  | some other =>
      by_cases own : other = id
      · subst own
        cases Operation.names names with
        | start _ b script =>
            have refused : e.start other b script = _ := start_of_refused fun parked _ => by
              rw [starts_iff.2 ⟨b, script, rfl, parked, none_⟩] at old
              cases old
            change (e.start other b script).1.flows.get? other = none ∧
              copiesFor other (e.start other b script).2.1 = [] ∧
                endsFor other (e.start other b script).2.1 = []
            rw [refused]
            exact ⟨none_, rfl, rfl⟩
        | event event =>
            change (e.onEvent event).1.flows.get? event.buildId = none ∧
              copiesFor event.buildId (e.onEvent event).2.1 = [] ∧
                endsFor event.buildId (e.onEvent event).2.1 = []
            rw [onEvent_of_idle fun _ => none_]
            exact ⟨none_, rfl, rfl⟩
        | abort =>
            change (e.abort other).1.flows.get? other = none ∧
              copiesFor other (e.abort other).2.1 = [] ∧ endsFor other (e.abort other).2.1 = []
            rw [abort_of_idle none_]
            exact ⟨none_, rfl, rfl⟩
        | delete build => exact ⟨none_, for_of_silent (silent_delete build).2⟩
      · have confined := (orderly.named names).confined
        exact ⟨(confined.flows id (Ne.symm own)).trans none_,
          for_of_within confined.within (Ne.symm own)⟩
  | none =>
      rcases e.perform_of_unnamed names with fire | ⟨clock, mailboxes, same⟩
      · cases fire
        exact orderly.fire_of_idle none_
      · rw [Engine.step, same]
        exact ⟨none_, rfl, rfl⟩

end FlowAfterCall
end Engine
end BuildPipeline
