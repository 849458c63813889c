import BuildPipeline.Engine.Basic
import BuildPipeline.Proofs.Engine.Settling

/-!
What an engine makes sure of whose commands have to be answered in time: every active flow whose
build has a name has a deadline for every command that it waits on (`Engine.Tended`). Every call on
the engine keeps this up, and no flow leaves the engine without its end being announced
(`Engine.Carries`).
-/

namespace BuildPipeline

open Time (Moment Span)

namespace FlowTable

variable (t : FlowTable) (id : BuildId) (f : Flow) {other : BuildId}

theorem get?_put : (t.put id f).get? id = some f :=
  Keyed.get?_put_self id f t.entries

theorem get?_put_of_ne (ne : other ≠ id) : (t.put id f).get? other = t.get? other :=
  Keyed.get?_put_of_ne ne f t.entries

theorem get?_erase : (t.erase id).get? id = none :=
  Keyed.get?_erase_self id t.entries

theorem get?_erase_of_ne (ne : other ≠ id) : (t.erase id).get? other = t.get? other :=
  Keyed.get?_erase_of_ne ne t.entries

end FlowTable

/-- An event that passes the check names its build, and brings stages with set-up only. -/
theorem Event.of_validate {e : Event} (passes : e.validate = .ok ()) :
    e.buildId.isBlank = false ∧ e.Proper := by
  unfold validate at passes
  split at passes
  · cases passes
  · rename_i named
    split at passes
    · cases passes
    · split at passes
      · cases passes
      · split at passes
        · cases passes
        · rename_i proper
          refine ⟨by simpa using named, fun stages => ?_⟩
          exact Classical.byContradiction fun other => proper ⟨stages, other⟩

/-! ## The flow of a build -/

/-- An active flow under the id of its build: it has not ended, and if the id is not blank then the
flow is covered and pressed. -/
structure Flow.Tended (due : List Deadline) (limit n : Nat) (s : Deadlines) (chains : Chains)
    (id : BuildId) (f : Flow) : Prop where
  going : f.ended = false
  course : ∃ build script c, build.id = id ∧ f = c.flow ∧ Course.Of build script chains c ∧
    (id.isBlank = false → c.Kept due limit s [] ∧ c.Pressed n due [])

section Flow

variable {due due' : List Deadline} {limit limit' n n' : Nat} {s s' : Deadlines} {chains : Chains}
  {id : BuildId} {f : Flow}

/-- What happens to the deadlines of other builds does not matter. -/
theorem Flow.Tended.mono (tended : f.Tended due limit n s chains id) (bounds : n ≤ n')
    (set_ : ∀ d : Deadline, d.buildId = id → s.Has d → d.fireAt ≤ limit →
      s'.Has d ∧ d.fireAt ≤ limit' ∨ d ∈ due')
    (dues : ∀ d : Deadline, d.buildId = id → id.isBlank = false → d ∈ due → d ∈ due') :
    f.Tended due' limit' n' s' chains id := by
  rcases tended.course with ⟨build, script, c, rfl, rfl, of, watched⟩
  refine ⟨tended.going, build, script, c, rfl, rfl, of, fun named => ?_⟩
  rcases watched named with ⟨kept, pressed⟩
  have own : ∀ {d : Deadline} {p : Posting}, p ∈ c.postings → d.For p.command →
      d.buildId = build.id :=
    fun mem own => own.buildId.trans (of.ids.2 _ mem)
  constructor
  · intro p mem waits
    rcases kept p mem waits with none_ | ⟨d, for_, has | now_⟩
    · cases none_
    · exact .inr ⟨d, for_, set_ d (own mem for_) has.1 has.2⟩
    · exact .inr ⟨d, for_, .inr (dues d (own mem for_) named now_)⟩
  · rcases pressed with few | ⟨few, -, all⟩
    · exact .inl (Nat.lt_of_lt_of_le few bounds)
    · refine .inr ⟨Nat.le_trans few bounds, rfl, fun p mem waits => ?_⟩
      rcases all p mem waits with ⟨d, now_, for_⟩
      exact ⟨d, dues d (own mem for_) named now_, for_⟩

theorem Flow.ended_of_result {b : Build} (result : f.result = [b]) :
    f.ended = true ∧ f.build = b := by
  unfold Flow.result at result
  split at result
  · rename_i finished
    exact ⟨finished, (List.cons.inj result).1⟩
  · cases result

theorem Flow.going_of_result (result : f.result = []) : f.ended = false := by
  unfold Flow.result at result
  split at result
  · cases result
  · rename_i going
    simpa using going

/-- A flow is handed an event, when deadlines are cancelled only of a command that the event answers
and only deadlines have had their turn whose event it is. -/
theorem Flow.Tended.handed (tended : f.Tended due limit n s chains id) (named : id.isBlank = false)
    {e : Event} (proper : e.Proper)
    (fails : e.isSuccess = false ∨ chains.count .tearDown + 2 ≤ n) (ordered : s'.Ordered)
    (set_ : ∀ d : Deadline, d.buildId = id → s.Has d →
      (f.accepts e = true → d.token ≠ e.token) → s'.Has d)
    (dues : ∀ d ∈ due, d.buildId = id → d ∈ due' ∨ d.expiredEvent = e) (now : Moment) :
    ∃ build script c, build.id = id ∧ (f.process e now).1 = c.flow ∧
      Upkeep due' limit n f s' build script chains c s' (f.process e now).2 none := by
  rcases tended.course with ⟨build, script, c, rfl, rfl, of, watched⟩
  rcases watched named with ⟨kept, pressed⟩
  have legal : Call.Legal (.process e now) := proper
  have own : ∀ {d : Deadline} {p : Posting}, p ∈ c.postings → d.For p.command →
      d.buildId = build.id :=
    fun mem own => own.buildId.trans (of.ids.2 _ mem)
  -- what is due and not answered by the event is due still
  have later : ∀ p ∈ c.postings, p.command.token ∈ c.flow.outstanding →
      ¬(c.entry (.process e now)).Answers p → ∀ d ∈ due, d.For p.command → d ∈ due' := by
    intro p mem waits unanswered d now_ for_
    refine (dues d now_ (own mem for_)).resolve_right ?_
    rintro rfl
    have run := (of.logged.fits p mem).2.2.1
    exact unanswered (of.answers_of_matches proper mem waits (for_.matches run))
  refine ⟨build, script, c.then_ (.process e now), rfl, rfl, of.step _ legal,
    Flow.Becomes.call .refl legal, ordered, fun _ has => has,
    of.ends_entry legal tended.going, fun _ => ?_, fun _ => ?_⟩
  · refine of.kept_then_ legal kept (List.Subset.refl _) ?_
    rintro p mem waits unanswered (none_ | ⟨d, for_, has | now_⟩)
    · cases none_
    · refine .inr ⟨d, for_, .inl ⟨set_ d (own mem for_) has.1 fun accepted same => ?_, has.2⟩⟩
      exact unanswered (of.answers proper mem accepted (same.symm.trans for_.token))
    · exact .inr ⟨d, for_, .inr (later p mem waits unanswered d now_ for_)⟩
  · rcases fails with fails | enough
    · refine of.pressed_then_ legal ?_ pressed ?_
      · rintro e' now' ⟨⟩
        exact fails
      · rintro p mem waits unanswered ⟨d, now_, for_⟩
        exact ⟨d, later p mem waits unanswered d now_ for_, for_⟩
    · exact (of.step _ legal).pressed enough _ _

/-- A flow is aborted. -/
theorem Flow.Tended.aborted (tended : f.Tended due limit n s chains id) (ordered : s.Ordered)
    {effects : List Effect} (silent : sends effects = []) (endless : ends effects = [])
    (now : Moment) :
    ∃ build script c, build.id = id ∧ (f.abort now).1 = c.flow ∧
      Upkeep due limit n f s build script chains c s effects none := by
  rcases tended.course with ⟨build, script, c, rfl, rfl, of, watched⟩
  have legal : Call.Legal (.abort now) := trivial
  refine ⟨build, script, c.then_ (.abort now), rfl, rfl, of.step _ legal,
    Flow.Becomes.call .refl legal, ordered, fun _ has => has, ?_, fun named => ?_, fun named => ?_⟩
  · rw [endless]
    exact of.ends_entry legal tended.going
  · rw [silent]
    exact of.kept_then_ legal (watched named).1 (List.Subset.refl _) fun _ _ _ _ there => there
  · rw [silent]
    refine of.pressed_then_ legal ?_ (watched named).2 fun _ _ _ _ there => there
    rintro e now' ⟨⟩

/-- A flow is started, with rounds enough. -/
theorem Flow.upkeep_start (due : List Deadline) (limit : Nat) (build : Build)
    (script : Option String) (ordered : s.Ordered) (enough : chains.count .tearDown + 2 ≤ n)
    (now : Moment) :
    ∃ c, (({ build, script, chains } : Flow).start now).1 = c.flow ∧
      Upkeep due limit n c.flow s build script chains c s
        (({ build, script, chains } : Flow).start now).2 none := by
  have of : Course.Of build script chains ((Course.idle build script chains).then_ (.start now)) :=
    .start now
  refine ⟨_, rfl, of, .refl, ordered, fun _ has => has, Course.ends_start now, ?_, ?_⟩
  · intro _ p mem _
    rw [Course.postings_then_] at mem
    exact .inl (Course.mem_sends_of_posting mem)
  · exact fun _ => of.pressed enough _ _

end Flow

/-! ## The engine -/

namespace Engine

/-- When a command that is sent now has to be answered, on the clock. -/
def limit (e : Engine) (timeout : Span) : Nat :=
  (e.clock.elapsed + timeout).nanos

/-- Every active flow is tended, by the deadlines that are set and those that are due now. -/
structure Tended (timeout : Span) (chains : Chains) (n : Nat) (due : List Deadline) (e : Engine) :
    Prop where
  set_ : e.stepTimeout = some timeout
  chains_eq : e.chains = chains
  ordered : e.deadlines.Ordered
  flows : ∀ id f, e.flows.get? id = some f →
    f.Tended due (e.limit timeout) n e.deadlines chains id

/-- What became of a flow that was active: it is active still, or its end was announced. -/
def Passed (e : Engine) (acts : List Act) (id : BuildId) (f : Flow) : Prop :=
  ∃ g, f.Becomes g ∧
    (e.flows.get? id = some g ∨
      e.flows.get? id = none ∧ g.ended = true ∧ g.build.id = id ∧ .ended g.build ∈ acts)

/-- No flow is added, and no flow is lost. -/
structure Carries (e e' : Engine) (acts : List Act) : Prop where
  old : ∀ id f, e.flows.get? id = some f → e'.Passed acts id f
  new : ∀ id, e.flows.get? id = none → e'.flows.get? id = none

section Carries

variable {e e' e'' : Engine} {acts more : List Act}

theorem Carries.of_flows (same : e'.flows = e.flows) : Carries e e' acts :=
  ⟨fun _ f at_ => ⟨f, .refl, .inl (same ▸ at_)⟩, fun _ none_ => same ▸ none_⟩

theorem Carries.trans (first : Carries e e' acts) (second : Carries e' e'' more) :
    Carries e e'' (acts ++ more) := by
  refine ⟨fun id f at_ => ?_, fun id none_ => second.new id (first.new id none_)⟩
  rcases first.old id f at_ with ⟨g, becomes, at_g | ⟨gone, ended, own, told⟩⟩
  · rcases second.old id g at_g with ⟨h, onwards, at_h | ⟨gone, ended, own, told⟩⟩
    · exact ⟨h, becomes.trans onwards, .inl at_h⟩
    · exact ⟨h, becomes.trans onwards, .inr ⟨gone, ended, own, List.mem_append_right _ told⟩⟩
  · exact ⟨g, becomes, .inr ⟨second.new id gone, ended, own, List.mem_append_left _ told⟩⟩

end Carries

section Settle

variable {timeout : Span} {n : Nat} {due : List Deadline} {e e' : Engine} {first f : Flow}
  {build : Build} {script : Option String} {chains : Chains} {c : Course} {effects : List Effect}
  {acts : List Act} {id : BuildId}

/-- What settling a flow comes to, and what it leaves alone. -/
theorem settle_tended (set_ : e.stepTimeout = some timeout) (chains_eq : e.chains = chains)
    (others : ∀ id f, id ≠ build.id → e.flows.get? id = some f →
      f.Tended due (e.limit timeout) n e.deadlines chains id)
    (h : Upkeep due (e.limit timeout) n first e.deadlines build script chains c e.deadlines
      effects none) :
    (e.settle build.id c.flow effects).1.Tended timeout chains n due ∧
      (e.settle build.id c.flow effects).1.Passed (e.settle build.id c.flow effects).2 build.id
        first ∧
      ∀ id ≠ build.id, (e.settle build.id c.flow effects).1.flows.get? id = e.flows.get? id := by
  rcases h.settle e.desk set_ rfl with ⟨c', same, after⟩
  have ending := after.ending
  rw [ends_nil, List.append_nil] at ending
  have named := after.of.ids.1
  simp only [settle, same]
  generalize e.desk.settle c.flow e.deadlines effects = s at after ending
  cases finished : s.ended with
  | none =>
      rw [finished] at ending
      have going := Flow.going_of_result ending.symm
      refine ⟨⟨set_, chains_eq, after.ordered, fun id f at_ => ?_⟩,
        ⟨c'.flow, after.becomes, .inl ?_⟩, ?_⟩
      · by_cases own : id = build.id
        · subst own
          rw [FlowTable.get?_put] at at_
          cases at_
          exact ⟨going, build, script, c', rfl, rfl, after.of,
            fun named => ⟨after.kept named, after.pressed named⟩⟩
        · rw [FlowTable.get?_put_of_ne _ _ _ own] at at_
          exact (others id f own at_).mono (Nat.le_refl _)
            (fun d _ has le => .inl ⟨after.spared d has, le⟩) (fun _ _ _ now_ => now_)
      · exact FlowTable.get?_put _ _ _
      · exact fun id ne => FlowTable.get?_put_of_ne _ _ _ ne
  | some b =>
      rw [finished] at ending
      rcases Flow.ended_of_result ending.symm with ⟨ended, rfl⟩
      have there : (e.flows.put build.id c'.flow).contains build.id = true := by
        rw [FlowTable.contains, FlowTable.get?_put]
        rfl
      simp only [onFlowEnd, named]
      rw [if_pos there]
      refine ⟨⟨set_, chains_eq, Deadlines.ordered_cancelBuild _ _, fun id f at_ => ?_⟩,
        ⟨c'.flow, after.becomes, .inr ⟨?_, ended, named, ?_⟩⟩, ?_⟩
      · by_cases own : id = build.id
        · subst own
          rw [FlowTable.get?_erase] at at_
          cases at_
        · rw [FlowTable.get?_erase_of_ne _ _ own, FlowTable.get?_put_of_ne _ _ _ own] at at_
          refine (others id f own at_).mono (Nat.le_refl _) ?_ (fun _ _ _ now_ => now_)
          intro d of has le
          exact .inl ⟨(after.spared d has).cancelBuild (of ▸ own), le⟩
      · exact FlowTable.get?_erase _ _
      · exact List.mem_append_right _ List.mem_cons_self
      · intro id ne
        rw [FlowTable.get?_erase_of_ne _ _ ne, FlowTable.get?_put_of_ne _ _ _ ne]

/-- A call that settles one flow and leaves the others alone. -/
theorem Carries.of_settle (at_ : e.flows.get? id = some f) (passed : e'.Passed acts id f)
    (others : ∀ other ≠ id, e'.flows.get? other = e.flows.get? other) : Carries e e' acts := by
  constructor
  · intro other g at_g
    by_cases own : other = id
    · subst own
      cases at_.symm.trans at_g
      exact passed
    · exact ⟨g, .refl, .inl ((others other own).trans at_g)⟩
  · intro other none_
    by_cases own : other = id
    · subst own
      cases at_.symm.trans none_
    · exact (others other own).trans none_

end Settle

/-! ## Calls on the engine -/

section Calls

variable {timeout : Span} {chains : Chains} {n n' : Nat} {due due' : List Deadline} {e : Engine}

theorem Tended.mono (tended : e.Tended timeout chains n due) (bounds : n ≤ n') :
    e.Tended timeout chains n' due :=
  ⟨tended.set_, tended.chains_eq, tended.ordered, fun id f at_ =>
    (tended.flows id f at_).mono bounds (fun _ _ has le => .inl ⟨has, le⟩)
      (fun _ _ _ now_ => now_)⟩

/-- Only the deadlines of running builds are to have their turn. -/
theorem Tended.spare (tended : e.Tended timeout chains n due)
    (spared : ∀ d ∈ due, d.buildId.isBlank = false → e.flows.get? d.buildId ≠ none → d ∈ due') :
    e.Tended timeout chains n due' := by
  refine ⟨tended.set_, tended.chains_eq, tended.ordered, fun id f at_ => ?_⟩
  refine (tended.flows id f at_).mono (Nat.le_refl _) (fun _ _ has le => .inl ⟨has, le⟩) ?_
  rintro d rfl named now_
  exact spared d now_ named (by simp [at_])

/-- What an accepted event leaves of the deadlines. -/
theorem deadlines_of_answered (e : Engine) (ordered : e.deadlines.Ordered) (accepted : Bool)
    (key : BuildId × Token) :
    ∃ s : Deadlines, (if accepted then { e with deadlines := e.deadlines.cancel key } else e) =
        { e with deadlines := s } ∧
      s.Ordered ∧
      ∀ d : Deadline, e.deadlines.Has d → (accepted = true → d.key ≠ key) → s.Has d := by
  cases accepted with
  | false => exact ⟨e.deadlines, rfl, ordered, fun d has _ => has⟩
  | true =>
      exact ⟨e.deadlines.cancel key, rfl, ordered.cancel key, fun d has apart =>
        has.cancel (apart rfl)⟩

/-- An event that fails, or any event as long as there are rounds enough. The deadlines whose event
it is have had their turn. -/
theorem Tended.onEvent (tended : e.Tended timeout chains n due) (event : Event)
    (fails : event.isSuccess = false ∨ chains.count .tearDown + 2 ≤ n)
    (dues : ∀ d ∈ due, d ∈ due' ∨ d.expiredEvent = event) :
    (e.onEvent event).1.Tended timeout chains n due' ∧
      Carries e (e.onEvent event).1 (e.onEvent event).2.1 := by
  -- a deadline that has had its turn is one of the flow that the event goes to
  have spared : ∀ d ∈ due, d.buildId.isBlank = false →
      (event.validate = .ok () → d.buildId ≠ event.buildId) → d ∈ due' := by
    intro d now_ named apart
    refine (dues d now_).resolve_right ?_
    rintro rfl
    exact apart (Deadline.validate_expiredEvent named) rfl
  unfold Engine.onEvent
  split
  · rename_i defect invalid
    refine ⟨tended.spare fun d now_ named _ => spared d now_ named fun valid => ?_, .of_flows rfl⟩
    rw [invalid] at valid
    cases valid
  · rename_i valid
    rcases Event.of_validate valid with ⟨named, proper⟩
    split
    · rename_i none_
      refine ⟨tended.spare fun d now_ blank found => spared d now_ blank fun _ same => ?_,
        .of_flows rfl⟩
      exact found (same ▸ none_)
    · rename_i f at_
      obtain ⟨s, left, ordered, kept⟩ := deadlines_of_answered e tended.ordered (f.accepts event)
        (event.buildId, event.token)
      rw [left]
      obtain ⟨build, script, c, own, same, upkeep⟩ := (tended.flows _ f at_).handed named proper
        fails ordered
        (fun d _ has apart => kept d has fun accepted key => apart accepted (Prod.mk.inj key).2)
        (fun d now_ _ => dues d now_) e.clock.now
      simp only [same, ← own] at at_ ⊢
      have rest : ∀ id g, id ≠ build.id → e.flows.get? id = some g →
          g.Tended due' (e.limit timeout) n s chains id := by
        intro id g ne at_g
        refine (tended.flows id g at_g).mono (Nat.le_refl _) ?_ ?_
        · rintro d rfl has le
          exact .inl ⟨kept d has fun _ key => ne ((Prod.mk.inj key).1.trans own.symm), le⟩
        · rintro d rfl blank now_
          exact spared d now_ blank fun _ key => ne (key.trans own.symm)
      obtain ⟨tended', passed, others⟩ :=
        settle_tended (e := { e with deadlines := s }) tended.set_ tended.chains_eq rest upkeep
      exact ⟨tended', .of_settle at_ passed others⟩

/-- Events of deadlines that are due are handed over one after the other. -/
theorem Tended.onEvents (tended : e.Tended timeout chains n due) :
    (e.onEvents (due.map Deadline.expiredEvent)).1.Tended timeout chains n [] ∧
      Carries e (e.onEvents (due.map Deadline.expiredEvent)).1
        (e.onEvents (due.map Deadline.expiredEvent)).2 := by
  induction due generalizing e with
  | nil => exact ⟨tended, .of_flows rfl⟩
  | cons d due ih =>
      have dues : ∀ d' ∈ d :: due, d' ∈ due ∨ d'.expiredEvent = d.expiredEvent := by
        intro d' mem
        rcases List.mem_cons.1 mem with rfl | later
        · exact .inr rfl
        · exact .inl later
      rcases tended.onEvent d.expiredEvent (.inl d.isSuccess_expiredEvent) dues with ⟨next, carries⟩
      rcases ih next with ⟨last, onwards⟩
      exact ⟨last, carries.trans onwards⟩

theorem Tended.abort (tended : e.Tended timeout chains n due) (id : BuildId) :
    (e.abort id).1.Tended timeout chains n due := by
  unfold Engine.abort
  split
  · exact tended
  · rename_i f at_
    have silent : sends (if f.aborted then [] else [(f.abort e.clock.now).1.snapshot]) = [] ∧
        ends (if f.aborted then [] else [(f.abort e.clock.now).1.snapshot]) = [] := by
      split <;> exact ⟨rfl, rfl⟩
    obtain ⟨build, script, c, rfl, same, upkeep⟩ :=
      (tended.flows id f at_).aborted tended.ordered silent.1 silent.2 e.clock.now
    simp only [same] at upkeep ⊢
    exact (settle_tended tended.set_ tended.chains_eq
      (fun other g _ at_g => tended.flows other g at_g) upkeep).1

theorem Tended.start (tended : e.Tended timeout chains n due)
    (enough : chains.count .tearDown + 2 ≤ n) (id : BuildId) (b : Build) (script : Option String) :
    (e.start id b script).1.Tended timeout chains n due := by
  unfold Engine.start
  split
  · exact tended
  · split
    · exact tended
    · obtain ⟨c, same, upkeep⟩ := Flow.upkeep_start due (e.limit timeout) { b with id } script
        tended.ordered enough e.clock.now
      simp only [tended.chains_eq, same]
      exact (settle_tended tended.set_ tended.chains_eq
        (fun other g _ at_g => tended.flows other g at_g) upkeep).1

theorem Tended.advance (tended : e.Tended timeout chains n due) (by_ : Span) :
    (e.advance by_).Tended timeout chains n due := by
  refine ⟨tended.set_, tended.chains_eq, tended.ordered, fun id f at_ => ?_⟩
  have later : e.limit timeout ≤ (e.advance by_).limit timeout :=
    Nat.add_le_add_right (Nat.le_add_right _ _) _
  exact (tended.flows id f at_).mono (Nat.le_refl _)
    (fun _ _ has le => .inl ⟨has, Nat.le_trans le later⟩) (fun _ _ _ now_ => now_)

theorem Tended.close (tended : e.Tended timeout chains n due) (address : Address) :
    (e.close address).Tended timeout chains n due :=
  ⟨tended.set_, tended.chains_eq, tended.ordered, tended.flows⟩

/-- The deadlines that come out of the heap are due now. -/
theorem Tended.polled (tended : e.Tended timeout chains n []) (now : Nat) :
    { e with deadlines := (e.deadlines.poll now).2 }.Tended timeout chains n
      (e.deadlines.poll now).1 := by
  refine ⟨tended.set_, tended.chains_eq, tended.ordered.poll now, fun id f at_ => ?_⟩
  refine (tended.flows id f at_).mono (Nat.le_refl _) ?_ (fun _ _ _ none_ => by cases none_)
  intro d _ has le
  rcases Nat.lt_or_ge now d.fireAt with ahead | passed
  · exact .inl ⟨has.poll ahead, le⟩
  · exact .inr (has.fires tended.ordered passed)

theorem Tended.fireDeadlines (tended : e.Tended timeout chains n []) :
    e.fireDeadlines.1.Tended timeout chains n [] :=
  (tended.polled e.clock.elapsed.nanos).onEvents.1

end Calls

end Engine
end BuildPipeline
