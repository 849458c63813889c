import BuildPipeline.Proofs.Engine.Answering
import BuildPipeline.Proofs.Engine.Disregarded

/-!
Builds that no reply can reach. A build is admitted under any id, but an event is checked before it
is routed, and one with a blank id does not pass. So the replies to the commands of a build that was
started under a blank id are refused as invalid events, one and all, as are the failures that its
deadlines report; its flow waits on the same commands for good, until somebody tells its end from
outside. Under any other id no reply to a command that is waited on is refused
(`Engine.admissions`).

That a reply passes the check otherwise is due to the commands: one names a phase exactly if it is
to run a phase (`Command.WellMade`), and no other commands are ever handed over
(`Engine.wellMade_handed`).
-/

namespace BuildPipeline

/-- A command names a phase exactly if it is to run a phase. -/
def Command.WellMade (m : Command) : Prop :=
  m.phase.isSome = true ↔ m.kind = .runPhase

/-- An event under a blank id does not pass the check. -/
theorem Event.validate_of_blank {event : Event} (blank : event.buildId.isBlank = true) :
    event.validate = .error (.blank "build id") := by
  unfold validate
  rw [if_pos blank]

/-- Whatever a provider makes of a command, the reply passes the check under an id that is not
blank. -/
theorem Command.WellMade.validate {m : Command} (made : m.WellMade)
    (named : m.build.id.isBlank = false) (r : StepResult) : (m.answer r).validate = .ok () := by
  refine (matches_answer m r).validate made (proper_answer m r) ?_ (isStatusCode_answer m r)
  rw [buildId_answer]
  exact named

/-! ## The commands that are handed over -/

namespace Desk

variable {f : Flow} {effects : List Effect}

theorem wellMade_handed (desk : Desk) (made : ∀ m ∈ commands effects, m.WellMade) :
    ∀ x ∈ desk.handed f effects, x.2.WellMade := by
  fun_induction desk.handed f effects with
  | case1 f => exact List.forall_mem_nil _
  | case2 f build rest ih => exact ih made
  | case3 f build rest ih => exact ih made
  | case4 f a command rest free ih =>
      rw [commands_dispatch] at made
      obtain ⟨mine, left⟩ := List.forall_mem_cons.1 made
      exact List.forall_mem_cons.2 ⟨mine, ih left⟩
  | case5 f a command rest why full accepted ih =>
      rw [commands_dispatch] at made
      obtain ⟨mine, left⟩ := List.forall_mem_cons.1 made
      have fills := Flow.fills_call f (.process (command.refused why) desk.now)
      have more : ∀ m ∈ commands (f.process (command.refused why) desk.now).2, m.WellMade :=
        fun m mem => (fills.made m mem).2
      refine List.forall_mem_cons.2 ⟨mine, ih ?_⟩
      rw [commands_append]
      exact List.forall_mem_append.2 ⟨left, more⟩
  | case6 f a command rest why full rejected ih =>
      rw [commands_dispatch] at made
      obtain ⟨mine, left⟩ := List.forall_mem_cons.1 made
      exact List.forall_mem_cons.2 ⟨mine, ih left⟩

/-- What a call on a flow hands over. -/
theorem wellMade_called (desk : Desk) (f : Flow) (call : Call) :
    ∀ x ∈ desk.handed (f.call call).1 (f.call call).2, x.2.WellMade :=
  desk.wellMade_handed fun m mem => ((Flow.fills_call f call).made m mem).2

end Desk

namespace Engine

variable {e : Engine} {id : BuildId} {f : Flow} {op : Operation} {event : Event}

theorem wellMade_handedOn (e : Engine) (event : Event) :
    ∀ x ∈ e.handedOn event, x.2.WellMade := by
  unfold handedOn
  split
  · exact e.desk.wellMade_called _ (.process event e.clock.now)
  · exact List.forall_mem_nil _

theorem wellMade_handedOnAll (e : Engine) (events : List Event) :
    ∀ x ∈ e.handedOnAll events, x.2.WellMade := by
  induction events generalizing e with
  | nil => exact List.forall_mem_nil _
  | cons event events ih =>
      exact List.forall_mem_append.2 ⟨e.wellMade_handedOn event, ih _⟩

/-- Every command that is handed over is well made. -/
theorem wellMade_handed (e : Engine) (op : Operation) : ∀ x ∈ e.handed op, x.2.WellMade := by
  cases op with
  | request r =>
      cases r with
      | start id build script =>
          simp only [handed]
          split
          · exact List.forall_mem_nil _
          · exact e.desk.wellMade_called _ (.start e.clock.now)
      | event event => exact e.wellMade_handedOn event
      | abort id =>
          simp only [handed]
          split
          · exact List.forall_mem_nil _
          · rename_i f _
            refine e.desk.wellMade_handed ?_
            rw [(abortEffects_silent f e.clock.now).1]
            exact List.forall_mem_nil _
      | fire => exact wellMade_handedOnAll _ _
      | delete => exact List.forall_mem_nil _
      | advance => exact List.forall_mem_nil _
      | close => exact List.forall_mem_nil _
  | flowEnd => exact List.forall_mem_nil _
  | storeFailing => exact List.forall_mem_nil _
  | containersFailing => exact List.forall_mem_nil _

theorem wellMade_handedFor (e : Engine) (ops : List Operation) :
    ∀ x ∈ handedFor id (sinceStart id (e.run ops)), x.2.WellMade := by
  intro x mem
  obtain ⟨s, since, handed⟩ := List.mem_flatMap.1 (List.mem_filter.1 mem).1
  exact s.before.wellMade_handed s.operation x handed

/-! ## Flows that are out of reach -/

theorem onEvent_of_blank (blank : event.buildId.isBlank = true) :
    e.onEvent event = (e, [], .error (.invalidEvent (.blank "build id"))) := by
  have invalid := Event.validate_of_blank blank
  have idle : event.validate = .ok () → e.flows.get? event.buildId = none := fun valid => by
    cases invalid.symm.trans valid
  rw [onEvent_of_idle idle, eventRefusal, invalid]

/-- A flow is there that waits on the given commands. -/
def Stranded (e : Engine) (id : BuildId) (waits : List Token) : Prop :=
  ∃ f, e.flows.get? id = some f ∧ f.outstanding = waits

variable {waits : List Token} {due : List Deadline}

theorem Stranded.of_confined {e' : Engine} {other : BuildId} {acts : List Act}
    (stranded : e.Stranded id waits) (confined : Confined other e e' acts) (ne : id ≠ other) :
    e'.Stranded id waits := by
  obtain ⟨f, at_, same⟩ := stranded
  exact ⟨f, (confined.flows id ne).trans at_, same⟩

theorem Stranded.onEvents (stranded : e.Stranded id waits) (blank : id.isBlank = true)
    (orderly : e.Orderly due) (events : List Event) : (e.onEvents events).1.Stranded id waits := by
  induction events generalizing e with
  | nil => exact stranded
  | cons event events ih =>
      have moves := orderly.onEvent event
      have first : (e.onEvent event).1.Stranded id waits := by
        by_cases ne : id = event.buildId
        · rw [onEvent_of_blank (ne ▸ blank)]
          exact stranded
        · exact stranded.of_confined moves.confined ne
      exact ih first moves.orderly

/-- An abort leaves what the flow waits on. -/
theorem Stranded.abort (stranded : e.Stranded id waits) : (e.abort id).1.Stranded id waits := by
  obtain ⟨f, at_, same⟩ := stranded
  refine ⟨(f.abort e.clock.now).1, ?_, ?_⟩
  · rw [flows_abort at_, FlowTable.get?_put]
  · rw [← same]
    unfold Flow.abort
    split <;> rfl

/-- No operation but an end that is told from outside changes what a flow under a blank id waits
on. -/
theorem Stranded.step (stranded : e.Stranded id waits) (blank : id.isBlank = true)
    (orderly : e.Orderly []) (inside : ∀ b, op = .flowEnd b → b.id ≠ id) :
    (e.step op).after.Stranded id waits := by
  cases names : op.build? with
  | some other =>
      by_cases ne : id = other
      · subst ne
        cases Operation.names names with
        | start _ b script =>
            obtain ⟨f, at_, same⟩ := stranded
            have taken : b.status = .parked → e.flows.get? id ≠ none := fun _ none_ => by
              cases at_.symm.trans none_
            change (e.start id b script).1.Stranded id waits
            rw [start_of_refused taken]
            exact ⟨f, at_, same⟩
        | event event =>
            change (e.onEvent event).1.Stranded _ waits
            rw [onEvent_of_blank blank]
            exact stranded
        | abort => exact stranded.abort
        | delete build => exact stranded
        | flowEnd build => exact absurd rfl (inside build rfl)
      · exact stranded.of_confined (orderly.named names).confined ne
  | none =>
      rcases e.perform_of_unnamed names with rfl | ⟨clock, mailboxes, same⟩
      · have polled : Stranded
            { e with deadlines := (e.deadlines.poll e.clock.elapsed.nanos).2 } id waits := stranded
        exact polled.onEvents blank (orderly.polled _) _
      · rw [Engine.step, same]
        exact stranded

theorem Stranded.after (stranded : e.Stranded id waits) (blank : id.isBlank = true)
    (orderly : e.Orderly []) {ops : List Operation} (inside : ∀ b, .flowEnd b ∈ ops → b.id ≠ id) :
    (e.after ops).Stranded id waits := by
  induction ops generalizing e with
  | nil => exact stranded
  | cons op ops ih =>
      have first : (e.step op).after.Stranded id waits :=
        stranded.step blank orderly fun b same => inside b (same ▸ List.mem_cons_self)
      exact ih first (orderly.step op) fun b mem => inside b (List.mem_cons_of_mem _ mem)

/-! ## Admissions -/

/-- How far the replies to the commands of a build get behind some steps. -/
structure Reaches (id : BuildId) (steps : List Step) (e : Engine) : Prop where
  /-- A build is admitted whatever its id. -/
  admits : ∀ (b : Build) (script : Option String), b.status = .parked → e.flows.get? id = none →
    (e.start id b script).2.2 = .ok ()
  /-- What the flow of a build waits on are commands that were sent since the build was started. -/
  sent : ∀ f, e.flows.get? id = some f → ∀ t ∈ f.outstanding,
    ∃ x ∈ sentFor id (sinceStart id steps), x.2.token = t
  routed : id.isBlank = false → ∀ x ∈ sentFor id (sinceStart id steps), e.WaitsOn id x.2.token →
    ∀ r, (e.onEvent (x.2.answer r)).2.2 = .ok ()
  refused : id.isBlank = true → ∀ event, event.buildId = id →
    e.onEvent event = (e, [], .error (.invalidEvent (.blank "build id")))
  stranded : id.isBlank = true → ∀ f, e.flows.get? id = some f →
    ∀ ops, (∀ b, .flowEnd b ∈ ops → b.id ≠ id) → (e.after ops).Stranded id f.outstanding

/-- Replies reach the builds that are not under a blank id, and no others. -/
theorem admissions (chains : Chains) (mailboxes : Mailboxes) (stepTimeout : Option Time.Span)
    (clock : Time.Clock) (ops : List Operation) (id : BuildId) :
    let e : Engine := { chains, mailboxes, stepTimeout, clock }
    Reaches id (e.run ops) (e.after ops) := by
  intro e
  have new := orderly_new chains mailboxes stepTimeout clock
  have tally := Tally.run new id rfl ops
  refine ⟨fun b script parked none_ => ?_, tally.waits, fun named x mem waits r => ?_, ?_, ?_⟩
  · rw [start_of_free parked none_]
  · have own : x.2.build.id = id := of_decide_eq_true (List.mem_filter.1 mem).2
    have made := e.wellMade_handedFor ops x (tally.out.subset mem)
    obtain ⟨f, at_, -⟩ := waits
    have there : (e.after ops).flows.get? (x.2.answer r).buildId = some f := by
      rw [buildId_answer, own]
      exact at_
    rw [onEvent_of_active (made.validate (own ▸ named) r) there]
  · rintro blank event rfl
    exact onEvent_of_blank blank
  · intro blank f at_ more inside
    exact Stranded.after ⟨f, at_, rfl⟩ blank (new.after ops) inside

/-- A build is started under a blank id. -/
def nameless : List Operation :=
  [.request (.start ⟨" "⟩ { id := ⟨"b"⟩, createdAt := Time.Moment.origin } none)]

/-- Its flow waits on its first command, and whatever a provider replies to this command is
refused. -/
theorem nameless_unreached :
    let e : Engine := { chains := Course.shortChains }
    ((e.after nameless).flows.get? ⟨" "⟩).map (·.outstanding) = some [⟨1⟩] ∧
      (sentFor ⟨" "⟩ (sinceStart ⟨" "⟩ (e.run nameless))).map (·.2.token) = [⟨1⟩] ∧
      ∀ x ∈ sentFor ⟨" "⟩ (sinceStart ⟨" "⟩ (e.run nameless)), ∀ r,
        ((e.after nameless).onEvent (x.2.answer r)).2.2 =
          .error (.invalidEvent (.blank "build id")) := by
  intro e
  refine ⟨by cbv, by cbv, fun x mem r => ?_⟩
  have own : x.2.build.id = ⟨" "⟩ := of_decide_eq_true (List.mem_filter.1 mem).2
  have blank : (x.2.answer r).buildId.isBlank = true := by
    rw [buildId_answer, own]
    cbv
  rw [onEvent_of_blank blank]

end Engine
end BuildPipeline
