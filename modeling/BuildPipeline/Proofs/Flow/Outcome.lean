import BuildPipeline.Proofs.Flow.Failing
import BuildPipeline.Proofs.Flow.Serving

/-!
How a build ends. The end of a flow is decided far from where things go wrong, but the calls that
were made tell it (`Course.Outcome`): an abort cancels the build, the failure of a step fails it,
and otherwise the phases decide. `Course.PendingOutcome` says how the status and the message of the
build go with the calls as long as the flow is under way. A call leads from there to a verdict or to
the next wait (`Course.OutcomeStep`), and what the verdict says of the phases is known from their
lines (`Course.Of.served`).
-/

namespace BuildPipeline

open Time (Moment)

namespace Course

/-- The call is an abort. -/
def Entry.aborts (n : Entry) : Bool :=
  match n.call with
  | .abort _ => true
  | .start _ | .process .. => false

/-- The entries before the first abort. -/
def heeded (entries : List Entry) : List Entry :=
  entries.takeWhile (!·.aborts)

/-- The last message of a failure that was accepted before any abort. -/
def lastTold (entries : List Entry) : Option String :=
  ((taken (heeded entries)).filterMap (·.told?)).getLast?

/-- A step of set-up or tear-down failed. -/
def StepFailed (entries : List Entry) : Prop :=
  ∃ e ∈ taken entries, (e.kind = .setupEnd ∨ e.kind = .tearDownEnd) ∧ e.isSuccess = false

/-- Every provider along a line reported success, and each of them once. -/
structure Passed (chains : Chains) (entries : List Entry) (l : Line) : Prop where
  everywhere : (sentOn l entries).map (·.address) = chains.chain l.capability
  once : ∀ p ∈ sentOn l entries,
    ∃ e, (taken entries).filter (·.token = p.command.token) = [e] ∧ e.isSuccess = true

/-- How a build ends after some calls, the last of which ends the flow. -/
structure Outcome (build : Build) (chains : Chains) (plan : List Stage) (entries : List Entry)
    (b : Build) : Prop where
  aborted : entries.any (·.aborts) = true → b.status = .canceled
  failed : entries.any (·.aborts) = false → StepFailed entries → b.status = .failed
  judged : entries.any (·.aborts) = false → ¬StepFailed entries →
    b.status = if b.phases.all (·.status == .done) then .done else .failed
  done : b.status = .done → (∀ e ∈ taken entries, e.isSuccess = true) ∧
    ∀ number stage index position, plan[number]? = some stage →
      stage.position? index = some position → Passed chains entries ⟨.runPhase, number, index⟩
  message : b.statusMessage = (lastTold entries <|> build.statusMessage)

/-! ## A flow under way -/

/-- How the build of a flow under way goes with the calls that were made. -/
structure PendingOutcome (build : Build) (entries : List Entry) (f : Flow) : Prop where
  aborted : f.aborted = entries.any (·.aborts)
  message : f.build.statusMessage = (lastTold entries <|> build.statusMessage)
  canceled : f.aborted = true → f.build.status = .canceled
  failed : f.aborted = false → StepFailed entries → f.build.status = .failed
  sound : f.aborted = false → ¬StepFailed entries → f.build.status = .inFlight

section PendingOutcome

variable {build : Build} {script : Option String} {chains : Chains} {c : Course} {call : Call}
  {entries : List Entry} {n : Entry} {f g h : Flow} {e : Event} {now : Moment}

theorem heeded_concat (entries : List Entry) (n : Entry) :
    heeded (entries ++ [n]) =
      heeded entries ++ if entries.any (·.aborts) || n.aborts then [] else [n] := by
  induction entries with
  | nil => cases aborts : n.aborts <;> simp [heeded, aborts]
  | cons m entries ih =>
      unfold heeded at ih ⊢
      cases aborts : m.aborts <;> simp [aborts, ih]

theorem taken?_of_aborts (aborts : n.aborts = true) : n.taken? = none := by
  unfold Entry.aborts at aborts
  unfold Entry.taken?
  cases call : n.call with
  | abort => rfl
  | start => rfl
  | process =>
      rw [call] at aborts
      cases aborts

theorem lastTold_concat (entries : List Entry) (n : Entry) :
    lastTold (entries ++ [n]) =
      ((if entries.any (·.aborts) then none else n.taken?.bind (·.told?)) <|>
        lastTold entries) := by
  unfold lastTold
  rw [heeded_concat]
  cases entries.any (·.aborts) with
  | true => simp
  | false =>
      cases aborts : n.aborts with
      | true => simp [taken?_of_aborts aborts]
      | false =>
          simp only [Bool.or_self, Bool.false_eq_true, if_false, taken_concat]
          cases n.taken? with
          | none => simp
          | some e => cases told : e.told? <;> simp [told]

theorem stepFailed_concat (entries : List Entry) (n : Entry) :
    StepFailed (entries ++ [n]) ↔ StepFailed entries ∨
      ∃ e, n.taken? = some e ∧ (e.kind = .setupEnd ∨ e.kind = .tearDownEnd) ∧
        e.isSuccess = false := by
  unfold StepFailed
  simp only [taken_concat, List.mem_append, Option.mem_toList, or_and_right, exists_or]

theorem PendingOutcome.plain (pending : PendingOutcome build entries f) (plain : Flow.Plain f g) :
    PendingOutcome build entries g :=
  ⟨plain.aborted.trans pending.aborted, plain.message.trans pending.message,
    fun aborted => plain.status.trans (pending.canceled (plain.aborted.symm.trans aborted)),
    fun live failed => plain.status.trans (pending.failed (plain.aborted.symm.trans live) failed),
    fun live sound => plain.status.trans (pending.sound (plain.aborted.symm.trans live) sound)⟩

/-- A call that is no abort and hands over nothing that is accepted. -/
theorem PendingOutcome.silent (pending : PendingOutcome build entries f) (stays : n.aborts = false)
    (silent : n.taken? = none) : PendingOutcome build (entries ++ [n]) f := by
  have same : StepFailed (entries ++ [n]) ↔ StepFailed entries := by
    simp [stepFailed_concat, silent]
  refine ⟨?_, ?_, pending.canceled, ?_, ?_⟩
  · simp [pending.aborted, stays]
  · simp [pending.message, lastTold_concat, silent]
  · rw [same]
    exact pending.failed
  · rw [same]
    exact pending.sound

/-- A call that hands over an event which is accepted. -/
theorem PendingOutcome.takes (pending : PendingOutcome build entries f) (stays : n.aborts = false)
    (taken : n.taken? = some e) (accepted : f.accepts e = true) (takes : Flow.Takes f e now h) :
    PendingOutcome build (entries ++ [n]) h := by
  have step : e.kind ≠ .phaseEnd ↔ e.kind = .setupEnd ∨ e.kind = .tearDownEnd := by
    rcases Flow.accepts_inv accepted with ⟨-, ⟨-, kind, -⟩ | ⟨-, kind, -⟩ | ⟨-, kind, -⟩⟩ <;>
      simp [kind]
  have failed : StepFailed (entries ++ [n]) ↔
      StepFailed entries ∨ e.kind ≠ .phaseEnd ∧ e.isSuccess = false := by
    simp [stepFailed_concat, taken, step]
  have aborted : h.aborted = f.aborted := takes.aborted
  refine ⟨?_, ?_, ?_, ?_, ?_⟩
  · simp [aborted, pending.aborted, stays]
  · rw [takes.message, lastTold_concat, taken, ← pending.aborted, pending.message]
    cases f.aborted with
    | true => simp
    | false => cases told : e.told? <;> simp [told]
  · intro abort
    rw [takes.status, if_neg (by simp [← aborted, abort])]
    exact pending.canceled (aborted ▸ abort)
  · intro live fails
    rw [aborted] at live
    rw [takes.status]
    rcases failed.1 fails with before | now_
    · rw [pending.failed live before, ite_self]
    · rw [if_pos ⟨live, now_⟩]
  · intro live sound
    rw [aborted] at live
    rw [failed, not_or] at sound
    rw [takes.status, if_neg fun h => sound.2 h.2]
    exact pending.sound live sound.1

theorem PendingOutcome.abort (pending : PendingOutcome build entries f)
    (aborts : n.aborts = true) (now : Moment) :
    PendingOutcome build (entries ++ [n]) (f.abort now).1 := by
  have message : (f.abort now).1.build.statusMessage = f.build.statusMessage := by
    unfold Flow.abort
    split <;> rfl
  have aborted : (f.abort now).1.aborted = true := by
    unfold Flow.abort
    split
    · assumption
    · rfl
  have live : ¬(f.abort now).1.aborted = false := by simp [aborted]
  refine ⟨?_, ?_, fun _ => ?_, fun h => absurd h live, fun h => absurd h live⟩
  · simp [aborted, aborts]
  · rw [message, pending.message, lastTold_concat, taken?_of_aborts aborts]
    simp
  · unfold Flow.abort
    split
    · rename_i aborted
      exact pending.canceled aborted
    · rfl

end PendingOutcome

/-! ## Calls of a flow under way -/

/-- A call leads a flow that goes with all calls before to a verdict or to the next wait. -/
def OutcomeStep (build : Build) (c : Course) (call : Call) : Prop :=
  ∃ h, PendingOutcome build (c.then_ call).entries h ∧
    Flow.Onward h (c.entry call).effects (c.then_ call).flow

section OutcomeStep

variable {build : Build} {script : Option String} {chains : Chains} {c : Course} {call : Call}
  {f : Flow} {b : Build}

theorem outcomeStep_start (now : Moment) :
    OutcomeStep build (idle build script chains) (.start now) := by
  refine ⟨(idle build script chains).flow.takeOff, ?_, Flow.onward_drive _ now⟩
  refine ⟨rfl, rfl, nofun, ?_, fun _ _ => rfl⟩
  rintro - ⟨e, mem, -⟩
  exact absurd mem List.not_mem_nil

theorem Of.outcomeStep (of : Of build script chains c) (legal : call.Legal)
    (pending : PendingOutcome build c.entries c.flow) : OutcomeStep build c call := by
  cases call with
  | start => exact legal.elim
  | abort now => exact ⟨(c.flow.abort now).1, pending.abort rfl now, .goes (.refl _) rfl⟩
  | process e now =>
      cases accepted : c.flow.accepts e with
      | false =>
          rcases Flow.plain_of_rejected accepted now with ⟨plain, endless⟩
          have silent : (c.entry (.process e now)).taken? = none :=
            if_neg (by simp [entry, accepted])
          exact ⟨c.flow, pending.silent rfl silent, .goes plain endless⟩
      | true =>
          rcases of.rests.takes accepted now with ⟨h, takes, onward⟩
          have taken : (c.entry (.process e now)).taken? = some e :=
            taken?_eq_some.2 ⟨now, rfl, accepted⟩
          refine ⟨h, pending.takes rfl taken accepted takes, ?_⟩
          rw [← Flow.process_of_accepted accepted] at onward
          exact onward

/-- A call that does not end the flow leaves it under way. -/
theorem OutcomeStep.pending (step : OutcomeStep build c call)
    (told : ends (c.entry call).effects = (c.then_ call).flow.result)
    (going : (c.then_ call).flow.ended = false) :
    PendingOutcome build (c.then_ call).entries (c.then_ call).flow := by
  obtain ⟨h, pending, onward⟩ := step
  cases onward with
  | goes plain => exact pending.plain plain
  | closes _ _ last =>
      rw [Flow.result_of_going going, last] at told
      cases told

/-- An ended flow makes nothing of a call. -/
theorem call_of_ended (ended : c.flow.ended = true) (legal : call.Legal) :
    (c.then_ call).flow.ended = true ∧ (c.then_ call).plan = c.plan ∧
      (c.entry call).effects = [] ∧ (c.entry call).taken? = none := by
  cases call with
  | start => exact legal.elim
  | abort now =>
      refine ⟨?_, rfl, rfl, rfl⟩
      change (c.flow.abort now).1.ended = true
      unfold Flow.abort
      split <;> exact ended
  | process e now =>
      have rejected : c.flow.accepts e = false := by simp [Flow.accepts, ended]
      have inert : c.flow.process e now = (c.flow, []) := process_of_inert (.inr ended)
      refine ⟨?_, ?_, congrArg Prod.snd inert, if_neg (by simp [entry, rejected])⟩
      · exact (congrArg (·.1.ended) inert).trans ended
      · rw [plan_then_, Flow.loading?_of_rejected rejected]
        rfl

theorem Of.pendingOutcome (of : Of build script chains c) (going : c.flow.ended = false) :
    PendingOutcome build c.entries c.flow := by
  induction of with
  | start now => exact (outcomeStep_start now).pending (ends_start now) going
  | @step c of call legal ih =>
      have going' : c.flow.ended = false := by
        cases ended : c.flow.ended with
        | false => rfl
        | true => exact absurd ((call_of_ended ended legal).1.symm.trans going) (by decide)
      exact (of.outcomeStep legal (ih going')).pending (of.ends_entry legal going') going

end OutcomeStep

/-! ## The verdict -/

section Outcome

variable {build : Build} {script : Option String} {chains : Chains} {c : Course} {call : Call}
  {f : Flow} {b : Build} {e : Event}

/-- When every phase is done, every provider of every phase reported success. -/
theorem Of.passed (of : Of build script chains c)
    (done : ∀ p ∈ c.flow.build.phases, p.status = .done) {number index position : Nat}
    {stage : Stage} (at_ : c.plan[number]? = some stage)
    (place : stage.position? index = some position) :
    Passed chains c.entries ⟨.runPhase, number, index⟩ := by
  have whole : Whole chains c.entries ⟨.runPhase, number, index⟩ := by
    by_cases none_ : chains.count .runPhase = 0
    · have chain := (of.logged.lines ⟨.runPhase, number, index⟩).chain
      have empty : chains.chain .runPhase = [] := List.length_eq_zero_iff.1 none_
      rw [empty, List.prefix_nil] at chain
      refine ⟨chain.trans empty.symm, fun p mem => ?_⟩
      rw [List.map_eq_nil_iff.1 chain] at mem
      cases mem
    · have within := of.rests.laid.lt_of_mem at_ (List.mem_of_getElem? place)
      exact of.served.done none_ number stage index position at_ place
        ⟨_, List.getElem?_eq_getElem within, done _ (List.getElem_mem within)⟩
  refine ⟨whole.addresses, fun p mem => ?_⟩
  obtain ⟨e, taken, token, success⟩ := whole.confirmed p mem
  exact ⟨e, token ▸ filter_of_nodup_map of.unchecked.spent.once taken, success⟩

/-- When every phase is done and no step failed, every reply that was accepted is a success. -/
theorem Of.sound (of : Of build script chains c)
    (done : ∀ p ∈ c.flow.build.phases, p.status = .done) (sound : ¬StepFailed c.entries)
    (mem : e ∈ taken c.entries) : e.isSuccess = true := by
  obtain ⟨-, m, sent, token, kind⟩ := of.unchecked.spent.answers e mem
  by_cases run : m.kind = .runPhase
  · obtain ⟨p, posted, rfl⟩ := List.mem_map.1 sent
    have capability : p.line.capability = .runPhase := (of.logged.fits p posted).1.trans run
    obtain ⟨stage, position, begun, place⟩ := of.staged p posted capability
    have at_ : c.plan[p.line.stage]? = some stage := by
      obtain ⟨rest, planned⟩ := of.planned
      rw [← planned, List.getElem?_append_left (List.getElem?_eq_some_iff.1 begun).1, begun]
    have own : p.line = ⟨.runPhase, p.line.stage, p.line.index⟩ := by rw [← capability]
    obtain ⟨e', only, success⟩ :=
      (of.passed done at_ place).once p (mem_sentOn.2 ⟨posted, own⟩)
    have among : e ∈ (taken c.entries).filter (·.token = p.command.token) := by
      simp [mem, token]
    rw [only, List.mem_singleton] at among
    exact among ▸ success
  · have step : e.kind = .setupEnd ∨ e.kind = .tearDownEnd := by
      cases command : m.kind with
      | runPhase => exact absurd command run
      | setup => exact .inl (kind.trans (by rw [command]; rfl))
      | tearDown => exact .inr (kind.trans (by rw [command]; rfl))
    cases success : e.isSuccess with
    | true => rfl
    | false => exact absurd ⟨e, mem, step, success⟩ sound

/-- A verdict that goes with the calls that were made. -/
theorem outcome_of_pending (pending : PendingOutcome build c.entries f)
    (of : Of build script chains c)
    (message : c.flow.build.statusMessage = f.build.statusMessage)
    (phases : c.flow.build.phases = f.build.phases) (status : c.flow.build.status = f.verdict) :
    Outcome build chains c.plan c.entries c.flow.build := by
  have aborted : c.entries.any (·.aborts) = true → c.flow.build.status = .canceled := by
    intro any
    have aborted := pending.aborted.trans any
    rw [status, Flow.verdict, if_pos (.inl aborted)]
    exact pending.canceled aborted
  have failed : c.entries.any (·.aborts) = false → StepFailed c.entries →
      c.flow.build.status = .failed := by
    intro none_ failed
    have failed := pending.failed (pending.aborted.trans none_) failed
    rw [status, Flow.verdict, if_pos (.inr failed), failed]
  have judged : c.entries.any (·.aborts) = false → ¬StepFailed c.entries →
      c.flow.build.status =
        if c.flow.build.phases.all (·.status == .done) then .done else .failed := by
    intro none_ sound
    have live := pending.aborted.trans none_
    rw [status, Flow.verdict, if_neg (by simp [live, pending.sound live sound]), phases]
  refine ⟨aborted, failed, judged, fun done => ?_, message.trans pending.message⟩
  have none_ : c.entries.any (·.aborts) = false := by
    cases any : c.entries.any (·.aborts) with
    | false => rfl
    | true => exact absurd ((aborted any).symm.trans done) (by decide)
  have sound : ¬StepFailed c.entries :=
    fun fails => absurd ((failed none_ fails).symm.trans done) (by decide)
  have all : ∀ p ∈ c.flow.build.phases, p.status = .done := by
    have verdict := (judged none_ sound).symm.trans done
    split at verdict
    · rename_i all
      simpa using all
    · cases verdict
  exact ⟨fun e mem => of.sound all sound mem,
    fun number stage index position at_ place => of.passed all at_ place⟩

theorem outcome_of_step (step : OutcomeStep build c call)
    (of : Of build script chains (c.then_ call))
    (finish : Effect.finish b ∈ (c.entry call).effects) :
    Outcome build chains (c.then_ call).plan (c.then_ call).entries b := by
  obtain ⟨h, pending, onward⟩ := step
  rw [← mem_ends] at finish
  cases onward with
  | goes _ endless =>
      rw [endless] at finish
      cases finish
  | closes g plain last message phases status =>
      rw [last, List.mem_singleton] at finish
      subst finish
      exact outcome_of_pending (pending.plain plain) of message phases status

theorem ended_of_finish {effects : List Effect} (told : ends effects = f.result)
    (finish : Effect.finish b ∈ effects) : f.ended = true := by
  cases ended : f.ended with
  | true => rfl
  | false =>
      rw [← mem_ends, told, Flow.result_of_going ended] at finish
      cases finish

/-- The calls that were made tell how a build ends. -/
theorem Of.outcome (of : Of build script chains c) :
    ∀ past n future, c.entries = past ++ n :: future → ∀ b, Effect.finish b ∈ n.effects →
      Outcome build chains c.plan (past ++ [n]) b ∧ taken future = [] := by
  -- an ended flow stays as it is, so what was told when it ended is not taken back
  suffices told : ∀ past n future, c.entries = past ++ n :: future → ∀ b,
      Effect.finish b ∈ n.effects → c.flow.ended = true ∧
        Outcome build chains c.plan (past ++ [n]) b ∧ taken future = [] by
    exact fun past n future split b finish => (told past n future split b finish).2
  induction of with
  | start now =>
      intro past n future split b finish
      rcases split_concat (show [] ++ [_] = _ from split) with
        ⟨rfl, rfl, rfl⟩ | ⟨rest, -, shorter⟩
      · have outcome := outcome_of_step (outcomeStep_start now) (.start now) finish
        exact ⟨ended_of_finish (ends_start now) finish, outcome, rfl⟩
      · exact absurd shorter (by simp)
  | @step c of call legal ih =>
      intro past n future split b finish
      rcases split_concat split with ⟨rfl, rfl, rfl⟩ | ⟨rest, rfl, shorter⟩
      · have going : c.flow.ended = false := by
          cases ended : c.flow.ended with
          | false => rfl
          | true =>
              rw [(call_of_ended ended legal).2.2.1] at finish
              cases finish
        have step := of.outcomeStep legal (of.pendingOutcome going)
        have outcome := outcome_of_step step (of.step call legal) finish
        exact ⟨ended_of_finish (of.ends_entry legal going) finish, outcome, rfl⟩
      · obtain ⟨ended, outcome, silent⟩ := ih past n rest shorter b finish
        obtain ⟨still, plan, -, none_⟩ := call_of_ended ended legal
        rw [plan, taken_concat, silent, none_]
        exact ⟨still, outcome, rfl⟩

/-- A build of one phase, the second provider of which is to reply. -/
def atLast : Course :=
  let id : BuildId := ⟨"b"⟩
  let begun :=
    (idle { id, createdAt := Moment.origin } none shortChains).then_ (.start Moment.origin)
  let loaded := begun.then_ (.process
    { kind := .setupEnd, buildId := id, token := ⟨1⟩, stages := some [[{ id := "p" }]] }
    Moment.origin)
  loaded.then_ (.process
    { kind := .phaseEnd, buildId := id, token := ⟨2⟩, phase := some ⟨0, none, none, none⟩ }
    Moment.origin)

/-- The last reply to a build of one phase. -/
def lastReply : Call :=
  .process
    { kind := .phaseEnd, buildId := ⟨"b"⟩, token := ⟨3⟩, phase := some ⟨0, none, none, none⟩ }
    Moment.origin

theorem of_atLast :
    Of { id := ⟨"b"⟩, createdAt := Moment.origin } none shortChains atLast := by
  refine .step (.step (.start Moment.origin) _ ?_) _ ?_
  · exact fun _ => rfl
  · exact fun stages => absurd rfl stages

theorem outcome_atLast :
    ∃ b, Effect.finish b ∈ (atLast.entry lastReply).effects ∧ b.status = .done ∧
      (atLast.then_ lastReply).plan = [⟨[0]⟩] ∧
      Outcome { id := ⟨"b"⟩, createdAt := Moment.origin } shortChains
        (atLast.then_ lastReply).plan (atLast.entries ++ [atLast.entry lastReply]) b := by
  have legal : lastReply.Legal := fun stages => absurd rfl stages
  have told : ends (atLast.entry lastReply).effects = (atLast.then_ lastReply).flow.result :=
    of_atLast.ends_entry legal (by cbv)
  have finish : Effect.finish (atLast.then_ lastReply).flow.build ∈
      (atLast.entry lastReply).effects := by
    rw [← mem_ends, told, Flow.result, if_pos (by cbv)]
    exact List.mem_singleton.2 rfl
  exact ⟨_, finish, by cbv, by cbv,
    (Of.outcome (of_atLast.step lastReply legal) atLast.entries _ [] rfl _ finish).1⟩

end Outcome

end Course
end BuildPipeline
