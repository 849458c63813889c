import BuildPipeline.Proofs.Engine.Handed
import Mathlib.Data.List.Induction

/-!
What a reply is told by. Tokens number the commands of one flow, and replies are routed by build id,
so a pair of build id and token stands for one command only until the build is started again. From
one start to the next the commands of a build are numbered from the first on, each has a token of
its own, and a token that is not waited on any more is never accepted again (`Engine.correlated`).
A build that is started again has its commands numbered anew, so a late reply to a command of the
flow before can be accepted for another command (`Engine.late_accepted`).

What happens to a build while it is not started is told by `Engine.UnstartedRun`. It keeps the count
of the tokens (`Engine.Tally`), and a token that is spent stays spent (`Engine.Spent`).
-/

namespace BuildPipeline

/-- The operation was not refused. -/
def Answer.isOk : Answer → Bool
  | .routed answer => answer.isOk
  | .aborted _ | .fired _ | .silent => true

/-- A step starts a build. -/
def Step.starts (id : BuildId) (s : Step) : Bool :=
  match s.operation with
  | .request (.start other _ _) => other = id && s.answer.isOk
  | _ => false

/-- The steps since a build was started last, the start among them. -/
def sinceStart (id : BuildId) (steps : List Step) : List Step :=
  steps.foldl (fun life s => if s.starts id then [s] else life ++ [s]) []

/-- The commands that were handed over for a build, refused or not, in order. -/
def handedFor (id : BuildId) (steps : List Step) : List (Address × Command) :=
  ofBuild id (steps.flatMap fun s => s.before.handed s.operation)

section Steps

variable {id other : BuildId} {one two sent : List (Address × Command)}

theorem sinceStart_append (id : BuildId) (steps : List Step) (s : Step) :
    sinceStart id (steps ++ [s]) =
      if s.starts id then [s] else sinceStart id steps ++ [s] := by
  rw [sinceStart, List.foldl_append]
  rfl

theorem ofBuild_append : ofBuild id (one ++ two) = ofBuild id one ++ ofBuild id two :=
  List.filter_append ..

theorem ofBuild_of_own (own : ∀ x ∈ sent, x.2.build.id = id) : ofBuild id sent = sent :=
  List.filter_eq_self.2 fun x mem => decide_eq_true (own x mem)

theorem ofBuild_of_other (ne : id ≠ other) (own : ∀ x ∈ sent, x.2.build.id = other) :
    ofBuild id sent = [] :=
  List.filter_eq_nil_iff.2 fun x mem => by simpa [own x mem] using Ne.symm ne

theorem handedFor_append (steps : List Step) (s : Step) :
    handedFor id (steps ++ [s]) =
      handedFor id steps ++ ofBuild id (s.before.handed s.operation) := by
  rw [handedFor, List.flatMap_append, ofBuild_append, List.flatMap_singleton]
  rfl

theorem sentFor_append (steps : List Step) (s : Step) :
    sentFor id (steps ++ [s]) = sentFor id steps ++ ofBuild id (s.acts.filterMap Act.sent?) := by
  rw [sentFor, List.flatMap_append, ofBuild_append, List.flatMap_singleton]
  rfl

end Steps

namespace Engine

/-- The flow of a build waits on a command. -/
def WaitsOn (e : Engine) (id : BuildId) (t : Token) : Prop :=
  ∃ f, e.flows.get? id = some f ∧ t ∈ f.outstanding

/-- An event is taken for the completion of a command that is waited on. -/
def Accepts (e : Engine) (event : Event) : Prop :=
  event.validate = .ok () ∧ ∃ f, e.flows.get? event.buildId = some f ∧ f.accepts event = true

/-- How replies are bound to the commands of a build behind some steps. Since the build was started
last its commands are numbered from the first on, and no two of them have the same token; a reply
that is accepted has the token of one that went out since; and a token that is not waited on is
never accepted again, unless the build is started again. -/
structure Correlated (id : BuildId) (steps : List Step) (e : Engine) : Prop where
  numbered : Numbered 0 ((handedFor id (sinceStart id steps)).map (·.2))
  distinct : ((handedFor id (sinceStart id steps)).map fun x => (x.2.build.id, x.2.token)).Nodup
  out : (sentFor id (sinceStart id steps)).Sublist (handedFor id (sinceStart id steps))
  belongs : ∀ reply, reply.buildId = id → e.Accepts reply →
    ∃ x ∈ sentFor id (sinceStart id steps), x.2.token = reply.token
  once : ∀ reply, reply.buildId = id → e.Accepts reply → ¬(e.onEvent reply).1.WaitsOn id reply.token
  spent : ∀ x ∈ handedFor id (sinceStart id steps), ¬e.WaitsOn id x.2.token →
    ∀ ops, (∀ s ∈ e.run ops, s.starts id = false) →
      ∀ reply, reply.buildId = id → reply.token = x.2.token → ¬(e.after ops).Accepts reply

/-- What happens to a build while it is not started, with the commands that are handed over for it
meanwhile and those of them that go out. -/
inductive UnstartedRun (id : BuildId) : Engine → Engine → List (Address × Command) →
    List (Address × Command) → Prop
  | stay (e : Engine) : UnstartedRun id e e [] []
  | apart {e e' e'' : Engine} {handed sent : List (Address × Command)}
      (same : e'.flows.get? id = e.flows.get? id) (rest : UnstartedRun id e' e'' handed sent) :
      UnstartedRun id e e'' handed sent
  | call {due : List Deadline} {e e' e'' : Engine} {acts : List Act}
      {more handed sent : List (Address × Command)} (moves : Moves due id e e' acts)
      (dealt : Dealt id e e' acts more) (rest : UnstartedRun id e' e'' handed sent) :
      UnstartedRun id e e'' (more ++ handed) (acts.filterMap Act.sent? ++ sent)

section UnstartedRun

variable {id other : BuildId} {e e' e'' : Engine} {due : List Deadline} {acts : List Act}
  {more handed sent : List (Address × Command)} {op : Operation} {t : Token}

/-- A call that does not start the build that it names. -/
theorem UnstartedRun.moves (moves : Moves due other e e' acts) (dealt : Dealt other e e' acts more)
    (rest : UnstartedRun id e' e'' handed sent) :
    UnstartedRun id e e'' (ofBuild id more ++ handed)
      (ofBuild id (acts.filterMap Act.sent?) ++ sent) := by
  have out : ∀ x ∈ acts.filterMap Act.sent?, x.2.build.id = other := fun x mem =>
    dealt.own x (List.mem_filter.1 (dealt.sent ▸ mem)).1
  by_cases ne : id = other
  · subst ne
    rw [ofBuild_of_own dealt.own, ofBuild_of_own out]
    exact .call moves dealt rest
  · rw [ofBuild_of_other ne dealt.own, ofBuild_of_other ne out]
    exact .apart (moves.confined.flows id ne) rest

theorem Orderly.unstartedRun_onEvents (orderly : e.Orderly due) (id : BuildId)
    (events : List Event) :
    UnstartedRun id e (e.onEvents events).1 (ofBuild id (e.handedOnAll events))
      (ofBuild id ((e.onEvents events).2.filterMap Act.sent?)) := by
  induction events generalizing e with
  | nil => exact .stay e
  | cons event events ih =>
      have moves := orderly.onEvent event
      have rest := ih moves.orderly
      rw [onEvents_cons, List.filterMap_append, ofBuild_append, handedOnAll, ofBuild_append]
      exact rest.moves moves (orderly.dealt_onEvent event)

theorem starts_iff : (e.step op).starts id = true ↔
    ∃ b script, op = .request (.start id b script) ∧ b.status = .parked ∧
      e.flows.get? id = none := by
  have told : ∀ other b script, (e.step (.request (.start other b script))).starts id =
      (decide (other = id) && (e.start other b script).2.2.isOk) := fun _ _ _ => rfl
  constructor
  · intro starts
    cases op with
    | request r =>
        cases r with
        | start other b script =>
            rw [told, Bool.and_eq_true, decide_eq_true_eq] at starts
            obtain ⟨rfl, ok⟩ := starts
            refine ⟨b, script, rfl, Classical.byContradiction fun taken => ?_⟩
            rw [start_of_refused (not_and.1 taken)] at ok
            cases ok
        | event => cases starts
        | abort => cases starts
        | delete => cases starts
        | advance => cases starts
        | fire => cases starts
        | close => cases starts
    | flowEnd => cases starts
    | storeFailing => cases starts
    | containersFailing => cases starts
  · rintro ⟨b, script, rfl, parked, none_⟩
    rw [told, start_of_free parked none_]
    simp [Except.isOk, Except.toBool]

/-- An operation that names a build and does not start it. -/
theorem Orderly.dealt_named (orderly : e.Orderly []) (names : op.build? = some id)
    (old : (e.step op).starts id = false) :
    Dealt id e (e.step op).after (e.step op).acts (e.handed op) := by
  have unstarted : ¬∃ b script, op = .request (.start id b script) ∧ b.status = .parked ∧
      e.flows.get? id = none := fun starts => by rw [starts_iff.2 starts] at old; cases old
  cases Operation.names names with
  | start _ b script =>
      have taken : b.status = .parked → e.flows.get? id ≠ none := fun parked none_ =>
        unstarted ⟨b, script, rfl, parked, none_⟩
      have refused : b.status ≠ .parked ∨ e.flows.contains id = true := by
        by_cases parked : b.status = .parked
        · exact .inr (Option.isSome_iff_ne_none.2 (taken parked))
        · exact .inl parked
      simp only [Engine.handed, refused, if_true]
      change Dealt id e (e.start id b script).1 (e.start id b script).2.1 []
      rw [start_of_refused taken]
      exact .nothing rfl fun _ there => there
  | event event => exact orderly.dealt_onEvent event
  | abort => exact orderly.dealt_abort id
  | delete build =>
      exact .nothing (List.map_eq_nil_iff.1 (silent_delete build).1) fun _ there => there
  | flowEnd build =>
      change Dealt build.id e (e.onFlowEnd build).1 (e.onFlowEnd build).2 []
      unfold Engine.onFlowEnd
      split
      · refine .nothing rfl fun g there => ?_
        rw [FlowTable.get?_erase] at there
        cases there
      · exact .nothing rfl fun _ there => there

/-- What is handed over in an operation that names a build is for this build. -/
theorem Orderly.handed_named (orderly : e.Orderly []) (names : op.build? = some id) :
    (∀ x ∈ e.handed op, x.2.build.id = id) ∧
      ((e.step op).acts.filterMap Act.sent?).Sublist (e.handed op) := by
  cases starts : (e.step op).starts id with
  | false =>
      have dealt := orderly.dealt_named names starts
      exact ⟨dealt.own, dealt.sent ▸ List.filter_sublist⟩
  | true =>
      obtain ⟨b, script, rfl, parked, none_⟩ := starts_iff.1 starts
      obtain ⟨own, sent, -⟩ := handed_start parked none_ script
      have out : (e.step (.request (.start id b script))).acts.filterMap Act.sent? = _ := sent
      exact ⟨own, out ▸ List.filter_sublist⟩

/-- An operation that does not start a build. -/
theorem Orderly.unstartedRun_step (orderly : e.Orderly []) (old : (e.step op).starts id = false) :
    UnstartedRun id e (e.step op).after (ofBuild id (e.handed op))
      (ofBuild id ((e.step op).acts.filterMap Act.sent?)) := by
  cases names : op.build? with
  | some other =>
      have moves := orderly.named names
      by_cases ne : id = other
      · subst ne
        have stays : UnstartedRun id (e.step op).after _ [] [] := .stay _
        have run := stays.moves moves (orderly.dealt_named names old)
        rwa [List.append_nil, List.append_nil] at run
      · obtain ⟨own, out⟩ := orderly.handed_named names
        rw [ofBuild_of_other ne own, ofBuild_of_other ne fun x mem => own x (out.subset mem)]
        exact .apart (moves.confined.flows id ne) (.stay _)
  | none =>
      cases op with
      | request r =>
          cases r with
          | start => cases names
          | event => cases names
          | abort => cases names
          | delete => cases names
          | advance by_ =>
              have same : (e.advance by_).flows.get? id = e.flows.get? id := rfl
              exact .apart same (.stay _)
          | fire =>
              have fired := (orderly.polled e.clock.elapsed.nanos).unstartedRun_onEvents id
                ((e.deadlines.poll e.clock.elapsed.nanos).1.map Deadline.expiredEvent)
              refine .apart ?_ fired
              rfl
          | close address =>
              have same : (e.close address).flows.get? id = e.flows.get? id := rfl
              exact .apart same (.stay _)
      | flowEnd => cases names
      | storeFailing => exact .stay e
      | containersFailing => exact .stay e

/-! ## The tokens of a life -/

/-- What was handed over for a build since it was started, and what of it went out. -/
structure Tally (id : BuildId) (handed sent : List (Address × Command)) (e : Engine) : Prop where
  numbered : Numbered 0 (handed.map (·.2))
  out : sent.Sublist handed
  minted : ∀ f, e.flows.get? id = some f → f.minted = handed.length
  waits : ∀ f, e.flows.get? id = some f → ∀ t ∈ f.outstanding, ∃ x ∈ sent, x.2.token = t

/-- A token that the flow of a build does not wait on, nor will. -/
def Spent (id : BuildId) (t : Token) (e : Engine) : Prop :=
  ∀ f, e.flows.get? id = some f → t ∉ f.outstanding ∧ t.number ≤ f.minted

/-- What is waited on behind a call was waited on before, or went out meanwhile and is new. -/
theorem Moves.waits {f g : Flow} (moves : Moves due id e e' acts) (was : e.flows.get? id = some f)
    (there : e'.flows.get? id = some g) (waits : t ∈ g.outstanding) :
    t ∈ f.outstanding ∨
      f.minted < t.number ∧ ∃ x ∈ acts.filterMap Act.sent?, x.2.token = t := by
  cases moves.turned with
  | idle same =>
      cases was.symm.trans (same ▸ there)
      exact .inl waits
  | called own was' settlement =>
      cases was.symm.trans was'
      refine (settlement.waits (own ▸ there) waits).imp (·.1) ?_
      rintro ⟨late, m, new, token⟩
      obtain ⟨x, mem, rfl⟩ := List.mem_map.1 new
      exact ⟨late, x, mem, token⟩
  | begun own none_ => cases was.symm.trans none_
  | dropped gone => cases gone.symm.trans there

theorem Tally.unstarted (tally : Tally id handed sent e) {handed' sent' : List (Address × Command)}
    (run : UnstartedRun id e e' handed' sent') :
    Tally id (handed ++ handed') (sent ++ sent') e' := by
  induction run generalizing handed sent with
  | stay e =>
      rw [List.append_nil, List.append_nil]
      exact tally
  | apart same rest ih =>
      exact ih ⟨tally.numbered, tally.out, same ▸ tally.minted, same ▸ tally.waits⟩
  | @call due e e' e'' acts more handed' sent' moves dealt rest ih =>
      rw [← List.append_assoc, ← List.append_assoc]
      have out : (acts.filterMap Act.sent?).Sublist more := dealt.sent ▸ List.filter_sublist
      refine ih ?_
      cases dealt.deals with
      | nothing silent same =>
          subst silent
          obtain ⟨numbered, old, minted, waits⟩ := tally
          rw [List.sublist_nil.1 out, List.append_nil, List.append_nil]
          exact ⟨numbered, old, fun g there => minted g (same g there),
            fun g there => waits g (same g there)⟩
      | @more f was numbers minted =>
          have from_ := tally.minted f was
          refine ⟨?_, tally.out.append out, fun g there => ?_, fun g there t waits => ?_⟩
          · rw [List.map_append]
            refine tally.numbered.append ?_
            rw [List.length_map, Nat.zero_add, ← from_]
            exact numbers
          · rw [List.length_append, ← from_]
            exact minted g there
          · rcases moves.waits was there waits with waited | ⟨-, x, mem, token⟩
            · obtain ⟨x, mem, token⟩ := tally.waits f was t waited
              exact ⟨x, List.mem_append_left _ mem, token⟩
            · exact ⟨x, List.mem_append_right _ mem, token⟩

theorem Spent.unstarted (spent : Spent id t e) (run : UnstartedRun id e e' handed sent) :
    Spent id t e' := by
  induction run with
  | stay e => exact spent
  | apart same rest ih => exact ih fun f there => spent f (same ▸ there)
  | @call due e e' e'' acts more handed sent moves dealt rest ih =>
      refine ih fun g there => ?_
      cases dealt.deals with
      | nothing silent same => exact spent g (same g there)
      | @more f was numbers minted =>
          obtain ⟨unwaited, low⟩ := spent f was
          refine ⟨fun waits => ?_, by rw [minted g there]; omega⟩
          rcases moves.waits was there waits with waited | ⟨late, -⟩
          · exact unwaited waited
          · omega

/-- A build that is started. -/
theorem Orderly.tally_start (orderly : e.Orderly []) {b : Build} (parked : b.status = .parked)
    (none_ : e.flows.get? id = none) (script : Option String) :
    Tally id (ofBuild id (e.handed (.request (.start id b script))))
      (ofBuild id ((e.start id b script).2.1.filterMap Act.sent?)) (e.start id b script).1 := by
  obtain ⟨own, sent, numbers, minted⟩ := handed_start parked none_ script
  have out : ((e.start id b script).2.1.filterMap Act.sent?).Sublist
      (e.handed (.request (.start id b script))) := sent ▸ List.filter_sublist
  rw [ofBuild_of_own own, ofBuild_of_own fun x mem => own x (out.subset mem)]
  refine ⟨numbers, out, minted, fun f there t waits => ?_⟩
  cases (orderly.start id b script).turned with
  | idle same => cases none_.symm.trans (same ▸ there)
  | called own was => cases none_.symm.trans was
  | begun own was settlement =>
      rcases settlement.waits (own ▸ there) waits with left | ⟨-, m, new, token⟩
      · exact (Course.not_leaves_idle _ t left).elim
      · obtain ⟨x, mem, rfl⟩ := List.mem_map.1 new
        exact ⟨x, mem, token⟩
  | dropped gone => cases gone.symm.trans there

/-! ## Runs -/

theorem run_append (e : Engine) (ops : List Operation) (op : Operation) :
    e.run (ops ++ [op]) = e.run ops ++ [(e.after ops).step op] := by
  induction ops generalizing e with
  | nil => rfl
  | cons first ops ih => exact congrArg _ (ih _)

theorem after_append (e : Engine) (ops : List Operation) (op : Operation) :
    e.after (ops ++ [op]) = ((e.after ops).step op).after :=
  List.foldl_append ..

theorem Orderly.after (orderly : e.Orderly []) (ops : List Operation) :
    (e.after ops).Orderly [] := by
  induction ops generalizing e with
  | nil => exact orderly
  | cons op ops ih => exact ih (orderly.step op)

/-- A token that is spent stays so until the build is started. -/
theorem Spent.after (spent : Spent id t e) (orderly : e.Orderly []) {ops : List Operation}
    (old : ∀ s ∈ e.run ops, s.starts id = false) : Spent id t (e.after ops) := by
  induction ops generalizing e with
  | nil => exact spent
  | cons op ops ih =>
      obtain ⟨first, rest⟩ := List.forall_mem_cons.1 old
      exact ih (spent.unstarted (orderly.unstartedRun_step first)) (orderly.step op) rest

/-- What was handed over for a build in a run since it was started. -/
theorem Tally.run (orderly : e.Orderly []) (id : BuildId) (none_ : e.flows.get? id = none)
    (ops : List Operation) :
    Tally id (handedFor id (sinceStart id (e.run ops))) (sentFor id (sinceStart id (e.run ops)))
      (e.after ops) := by
  induction ops using List.reverseRecOn with
  | nil =>
      refine ⟨rfl, .refl _, fun f there => ?_, fun f there => ?_⟩ <;>
        cases none_.symm.trans there
  | append_singleton ops op ih =>
      have orderly' := orderly.after ops
      rw [run_append, after_append, sinceStart_append]
      cases starts : ((e.after ops).step op).starts id with
      | false =>
          rw [if_neg Bool.false_ne_true, handedFor_append, sentFor_append]
          exact ih.unstarted (orderly'.unstartedRun_step starts)
      | true =>
          obtain ⟨b, script, rfl, parked, gone⟩ := starts_iff.1 starts
          rw [if_pos rfl, ← List.nil_append [_], handedFor_append, sentFor_append]
          exact orderly'.tally_start parked gone script

theorem Accepts.waits {reply : Event} (accepts : e.Accepts reply) (orderly : e.Orderly []) :
    e.WaitsOn reply.buildId reply.token := by
  obtain ⟨-, f, at_, accepted⟩ := accepts
  obtain ⟨build, script, c, -, rfl, of, -⟩ := orderly.flows _ f at_
  exact ⟨c.flow, at_, (of.unchecked.slotted.settles accepted e.clock.now).1⟩

/-- Replies are bound to commands until a build is started again. -/
theorem correlated (chains : Chains) (mailboxes : Mailboxes) (stepTimeout : Option Time.Span)
    (clock : Time.Clock) (ops : List Operation) (id : BuildId) :
    let e : Engine := { chains, mailboxes, stepTimeout, clock }
    Correlated id (e.run ops) (e.after ops) := by
  intro e
  have new := orderly_new chains mailboxes stepTimeout clock
  have orderly := new.after ops
  have tally := Tally.run new id rfl ops
  refine ⟨tally.numbered, ?_, tally.out, ?_, ?_, ?_⟩
  · have tokens := tally.numbered.nodup
    rw [List.map_map] at tokens
    exact .of_map (·.2) (by rw [List.map_map]; exact tokens)
  · rintro reply rfl accepts
    obtain ⟨f, at_, waits⟩ := accepts.waits orderly
    exact tally.waits f at_ _ waits
  · rintro reply rfl ⟨valid, f, at_, accepted⟩ ⟨g, there, waits⟩
    exact orderly.settled_of_accepted valid at_ accepted there waits
  · rintro x mem unwaited more old reply rfl token accepts
    have spent : Spent reply.buildId x.2.token (e.after ops) := fun f at_ => by
      refine ⟨fun waits => unwaited ⟨f, at_, waits⟩, ?_⟩
      have low := tally.numbered.le (List.mem_map_of_mem mem)
      rw [List.length_map, Nat.zero_add, ← tally.minted f at_] at low
      exact low
    obtain ⟨f, at_, waits⟩ := accepts.waits (orderly.after more)
    exact (spent.after orderly old f at_).1 (token ▸ waits)

/-- An engine that waits for a reply no longer than a nanosecond. -/
def impatient : Engine :=
  { chains := Course.shortChains, stepTimeout := some ⟨1⟩ }

/-- A build is started again when its flow has ended because the first command was not answered in
time. -/
def retried : List Operation :=
  let start := .request (.start ⟨"b"⟩ { id := ⟨"b"⟩, createdAt := Time.Moment.origin } none)
  [start, .request (.advance ⟨1⟩), .request .fire, start]

/-- The reply to the first command of the build. -/
def late : Event :=
  { kind := .setupEnd, buildId := ⟨"b"⟩, token := ⟨1⟩ }

/-- A late reply to the command of a flow that has ended is accepted by the next flow of the build,
which has sent another command with the same token. -/
theorem late_accepted :
    ¬((sentFor ⟨"b"⟩ (impatient.run retried)).map fun x => (x.2.build.id, x.2.token)).Nodup ∧
      (sentFor ⟨"b"⟩ (impatient.run retried)).map (fun x => .completion x.2) = [late, late] ∧
      (impatient.after (retried.take 3)).flows.get? ⟨"b"⟩ = none ∧
      (impatient.after retried).Accepts late := by
  have keys : ((sentFor ⟨"b"⟩ (impatient.run retried)).map fun x => (x.2.build.id, x.2.token)) =
      [(⟨"b"⟩, ⟨1⟩), (⟨"b"⟩, ⟨1⟩)] := by cbv
  have accepted : ((impatient.after retried).flows.get? ⟨"b"⟩).any (·.accepts late) = true := by cbv
  refine ⟨by rw [keys]; decide, by cbv, by cbv, by cbv, ?_⟩
  exact (Option.any_eq_true _ _).1 accepted

end UnstartedRun
end Engine
end BuildPipeline
