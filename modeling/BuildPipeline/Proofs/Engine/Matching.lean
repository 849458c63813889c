import BuildPipeline.Proofs.Engine.Operations

/-!
The live deadlines of an engine match the commands that its flows wait on (`Engine.Matched`), behind
every run of an engine whose commands have to be answered within a time
(`Engine.matched_after`). A deadline is told by the dispatch that armed it. That is the last one of
its pair of build id and token.

Commands go out, deadlines are cancelled, polled and dropped in different places. What holds between
them is `Engine.Watched`, which lets a deadline that came out of the heap stand for its command
until it has had its turn. Every step keeps this up (`Watched.moves` for calls that name a build,
`Watched.polled` and `Watched.expired` for deadlines that fire).
-/

namespace BuildPipeline

open Time (Span)

/-- A command that was handed over, and the time on the clock then. -/
structure Dispatched where
  sentAt : Span
  address : Address
  command : Command

namespace Dispatched

/-- The pair that the reply is told by. -/
def key (x : Dispatched) : Deadline.Key :=
  (x.command.build.id, x.command.token)

/-- The deadline that a command has when it has to be answered within a time. -/
def deadline (timeout : Span) (x : Dispatched) : Deadline :=
  { buildId := x.command.build.id
    token := x.command.token
    capability := x.command.kind
    phaseIndex := x.command.phase.map (·.index)
    fireAt := (x.sentAt + timeout).nanos
    timeout }

end Dispatched

/-- The commands that were handed over at a time. -/
def dispatchedAt (now : Span) (acts : List Act) : List Dispatched :=
  (acts.filterMap Act.sent?).map fun (address, command) => ⟨now, address, command⟩

/-- The commands that were handed over in some steps, in order. -/
def dispatches (steps : List Step) : List Dispatched :=
  steps.flatMap fun s => dispatchedAt s.before.clock.elapsed s.acts

/-- The last command that was handed over for a pair of build id and token. -/
def lastDispatched? (log : List Dispatched) (key : Deadline.Key) : Option Dispatched :=
  log.reverse.find? (·.key = key)

section Log

variable {log more : List Dispatched} {key : Deadline.Key} {now : Span} {acts : List Act}
  {m : Command}

theorem lastDispatched?_append (fresh : ∀ x ∈ more, x.key ≠ key) :
    lastDispatched? (log ++ more) key = lastDispatched? log key := by
  have none_ : more.reverse.find? (·.key = key) = none := by
    rw [List.find?_eq_none]
    intro x mem
    simpa using fresh x (List.mem_reverse.1 mem)
  rw [lastDispatched?, List.reverse_append, List.find?_append, none_]
  rfl

theorem commands_dispatchedAt (now : Span) (acts : List Act) :
    (dispatchedAt now acts).map (·.command) = sentBy acts := by
  simp [dispatchedAt, sentBy, Function.comp_def]

theorem dispatchedAt_append (now : Span) (one two : List Act) :
    dispatchedAt now (one ++ two) = dispatchedAt now one ++ dispatchedAt now two := by
  simp [dispatchedAt]

theorem mem_dispatchedAt {x : Dispatched} (mem : x ∈ dispatchedAt now acts) :
    x.sentAt = now ∧ x.command ∈ sentBy acts := by
  obtain ⟨sent, -, rfl⟩ := List.mem_map.1 mem
  exact ⟨rfl, commands_dispatchedAt now acts ▸ List.mem_map_of_mem mem⟩

/-- A command that was handed over just now is the last one of its pair. -/
theorem lastDispatched?_of_sent (now : Span) (distinct : ((sentBy acts).map (·.token)).Nodup)
    (sent : m ∈ sentBy acts) :
    ∃ x, lastDispatched? (log ++ dispatchedAt now acts) (m.build.id, m.token) = some x ∧
      x.sentAt = now ∧ x.command = m := by
  obtain ⟨x, mem, rfl⟩ := List.mem_map.1 ((commands_dispatchedAt now acts).symm ▸ sent)
  have found : ((dispatchedAt now acts).reverse.find?
      (·.key = (x.command.build.id, x.command.token))).isSome = true :=
    List.find?_isSome.2 ⟨x, List.mem_reverse.2 mem, decide_eq_true rfl⟩
  obtain ⟨y, last⟩ := Option.isSome_iff_exists.1 found
  have own := List.find?_some last
  rw [decide_eq_true_eq] at own
  obtain ⟨sentAt, sent'⟩ := mem_dispatchedAt (List.mem_reverse.1 (List.mem_of_find?_eq_some last))
  refine ⟨y, ?_, sentAt, List.inj_on_of_nodup_map distinct sent' sent (Prod.mk.inj own).2⟩
  rw [lastDispatched?, List.reverse_append, List.find?_append, last]
  rfl

end Log

namespace Engine

/-- The live deadlines match the commands that are waited on. Every command that an active flow
waits on has one live deadline, as it was armed when the command was handed over last; unless the
flow was aborted there are no others of its build, and none is live of a build without a flow. -/
structure Matched (timeout : Span) (log : List Dispatched) (e : Engine) : Prop where
  waits : ∀ id f, e.flows.get? id = some f → id.isBlank = false → ∀ t ∈ f.outstanding,
    ∃ x, lastDispatched? log (id, t) = some x ∧
      e.deadlines.live.filter (·.key = (id, t)) = [x.deadline timeout]
  owed : ∀ id f, e.flows.get? id = some f → f.aborted = false →
    ∀ d ∈ e.live id, d.token ∈ f.outstanding
  active : ∀ d ∈ e.deadlines.live, ∃ f, e.flows.get? d.buildId = some f
  pending : e.pendingDeadlines = e.deadlines.live.length

/-- What holds of one build between the calls. `due` has deadlines that came out of the heap and
have not had their turn yet. -/
structure WatchedAt (timeout : Span) (due : List Deadline) (log : List Dispatched) (e : Engine)
    (id : BuildId) : Prop where
  waits : ∀ f, e.flows.get? id = some f → id.isBlank = false → ∀ t ∈ f.outstanding,
    (∃ d ∈ e.live id, d.token = t) ∨ ∃ d ∈ due, d.key = (id, t)
  owed : ∀ f, e.flows.get? id = some f → f.aborted = false →
    ∀ d ∈ e.live id, d.token ∈ f.outstanding
  told : ∀ d ∈ e.live id, ∃ x, lastDispatched? log d.key = some x ∧ d = x.deadline timeout

/-- What holds between the calls. -/
structure Watched (timeout : Span) (due : List Deadline) (log : List Dispatched) (e : Engine) :
    Prop where
  orderly : e.Orderly due
  set_ : e.stepTimeout = some timeout
  builds : ∀ id, e.WatchedAt timeout due log id

section Watched

variable {timeout : Span} {due : List Deadline} {log : List Dispatched} {e e' : Engine}
  {id : BuildId} {acts : List Act} {build : Build} {script : Option String} {first c : Course}
  {call : Call} {left : List Deadline} {d : Deadline} {t : Token}

theorem mem_live : d ∈ e.live id ↔ d ∈ e.deadlines.live ∧ d.buildId = id := by
  rw [live, List.mem_filter, decide_eq_true_eq]

/-! ## Steps that name a build -/

/-- Nothing changes for other builds. -/
theorem WatchedAt.confined {other : BuildId} (watched : e.WatchedAt timeout due log other)
    (confined : Confined id e e' acts) (ne : other ≠ id) (now : Span) :
    e'.WatchedAt timeout due (log ++ dispatchedAt now acts) other := by
  have same := confined.flows other ne
  have live := confined.live other ne
  refine ⟨fun f at_ named t waits => ?_, fun f at_ alive d mem => ?_, fun d mem => ?_⟩
  · refine (watched.waits f (same ▸ at_) named t waits).imp_left ?_
    rintro ⟨d, mem, token⟩
    exact ⟨d, live.mem_iff.2 mem, token⟩
  · exact watched.owed f (same ▸ at_) alive d (live.mem_iff.1 mem)
  · have old := live.mem_iff.1 mem
    rw [lastDispatched?_append fun x new key => ?_]
    · exact watched.told d old
    · -- what was handed over meanwhile is of the build that was named
      have own := Act.Within.sent confined.within (mem_dispatchedAt new).2
      exact ne ((mem_live.1 mem).2.symm.trans ((Prod.mk.inj key).1.symm.trans own))

/-- A build that has no flow and no deadlines. -/
theorem WatchedAt.gone (gone : e.flows.get? id = none) (none_ : e.live id = []) :
    e.WatchedAt timeout due log id := by
  refine ⟨fun f at_ => ?_, fun f at_ => ?_, fun d mem => ?_⟩
  · cases gone.symm.trans at_
  · cases gone.symm.trans at_
  · rw [none_] at mem
    cases mem

/-- What a flow that has settled waits on has a deadline, of old or since it was sent. `left` has
the deadlines that were left to it. -/
theorem WatchedAt.settled {desk : Desk} {chains : Chains}
    (settlement : Settlement build script chains first call desk left c e' acts)
    (set_ : desk.stepTimeout = some timeout)
    (waits : build.id.isBlank = false → ∀ t, first.Leaves call t →
      (∃ d ∈ left, d.token = t) ∨ ∃ d ∈ due, d.key = (build.id, t))
    (owed : first.flow.aborted = false → ∀ d ∈ left, first.Leaves call d.token)
    (told : ∀ d ∈ left, ∃ x, lastDispatched? log d.key = some x ∧ d = x.deadline timeout)
    (low : ∀ d ∈ left, d.token.number ≤ first.flow.minted) :
    e'.WatchedAt timeout due (log ++ dispatchedAt desk.elapsed acts) build.id := by
  obtain ⟨⟨ended, h⟩, ⟨going, there, live⟩ | ⟨-, gone, none_⟩⟩ := settlement
  · have new : desk.deadlines (sentBy acts) = (sentBy acts).map (desk.deadline timeout) := by
      simp only [Desk.deadlines, set_]
    have distinct := h.distinct
    have allWaits := h.waits
    have allOwed := h.owed
    rw [commands_nil, List.append_nil] at distinct allWaits allOwed
    refine ⟨fun f at_ named t waits' => ?_, fun f at_ alive d mem => ?_, fun d mem => ?_⟩
    · cases there.symm.trans at_
      rcases allWaits t waits' with kept | fresh
      · refine (waits named t kept).imp_left ?_
        rintro ⟨d, mem, token⟩
        exact ⟨d, live.mem_iff.2 (List.mem_append_right _ mem), token⟩
      · obtain ⟨m, sent, rfl⟩ := List.mem_map.1 fresh
        refine .inl ⟨desk.deadline timeout m, live.mem_iff.2 (List.mem_append_left _ ?_), rfl⟩
        exact new ▸ List.mem_map_of_mem sent
    · cases there.symm.trans at_
      refine allOwed alive going d.token ?_
      rcases List.mem_append.1 (live.mem_iff.1 mem) with armed | old
      · obtain ⟨m, sent, rfl⟩ := List.mem_map.1 (new ▸ armed)
        exact .inr (List.mem_map_of_mem sent)
      · exact .inl (owed (h.aborted alive) d old)
    · rcases List.mem_append.1 (live.mem_iff.1 mem) with armed | old
      · obtain ⟨m, sent, rfl⟩ := List.mem_map.1 (new ▸ armed)
        obtain ⟨x, last, sentAt, rfl⟩ := lastDispatched?_of_sent desk.elapsed distinct sent
        exact ⟨x, last, by simp [Desk.deadline, Dispatched.deadline, sentAt]⟩
      · rw [lastDispatched?_append fun x sent key => ?_]
        · exact told d old
        · -- a command that was handed over meanwhile has a later token
          have sent' := (mem_dispatchedAt sent).2
          have late := (h.own x.command (List.mem_append_left _ sent')).2
          have early := low d old
          rw [← (Prod.mk.inj key).2] at early
          omega
  · exact .gone gone none_

theorem Watched.moves (watched : e.Watched timeout due log) (moves : Moves due id e e' acts) :
    e'.Watched timeout due (log ++ dispatchedAt e.clock.elapsed acts) := by
  refine ⟨moves.orderly, moves.confined.frame ▸ watched.set_, fun other => ?_⟩
  by_cases ne : other ≠ id
  · exact (watched.builds other).confined moves.confined ne _
  obtain rfl := Classical.not_not.1 ne
  have own := watched.builds other
  cases moves.turned with
  | idle same silent =>
      have none_ : dispatchedAt e.clock.elapsed acts = [] :=
        List.map_eq_nil_iff.1 ((commands_dispatchedAt _ _).trans silent)
      rw [same, none_, List.append_nil]
      exact own
  | called own' was settlement =>
      subst own'
      refine .settled settlement watched.set_ ?_ ?_ ?_ ?_
      · rintro named t ⟨waits, unanswered⟩
        refine (own.waits _ was named t waits).imp_left ?_
        rintro ⟨d, mem, rfl⟩
        exact ⟨d, List.mem_filter.2 ⟨mem, Course.spares_iff.2 unanswered⟩, rfl⟩
      · intro alive d mem
        obtain ⟨mem, spared⟩ := List.mem_filter.1 mem
        exact ⟨own.owed _ was alive d mem, Course.spares_iff.1 spared⟩
      · exact fun d mem => own.told d (List.mem_filter.1 mem).1
      · intro d mem
        obtain ⟨there, mine⟩ := mem_live.1 (List.mem_filter.1 mem).1
        exact watched.orderly.low (List.mem_append_left _ (e.deadlines.live_subset there))
          (mine ▸ was)
  | begun own' was settlement =>
      subst own'
      exact .settled settlement watched.set_
        (fun _ t left => (Course.not_leaves_idle _ t left).elim)
        (fun _ => List.forall_mem_nil _) (List.forall_mem_nil _) (List.forall_mem_nil _)
  | dropped gone none_ => exact .gone gone none_

/-! ## Deadlines that fire -/

/-- The deadlines that are due come out of the heap. -/
theorem Watched.polled (watched : e.Watched timeout [] log) (now : Nat) :
    { e with deadlines := (e.deadlines.poll now).2 }.Watched timeout (e.deadlines.poll now).1
      log := by
  have polled := watched.orderly.sound.poll now
  generalize deadlines : (e.deadlines.poll now).2 = left at polled
  have old : ∀ id, ∀ d ∈ ({ e with deadlines := left } : Engine).live id, d ∈ e.live id := by
    intro id d mem
    obtain ⟨there, mine⟩ := mem_live.1 mem
    exact mem_live.2 ⟨(List.mem_filter.1 (polled.left.mem_iff.1 there)).1, mine⟩
  refine ⟨deadlines ▸ watched.orderly.polled now, watched.set_, fun id =>
    ⟨fun f at_ named t waits => ?_, fun f at_ alive d mem => ?_, fun d mem => ?_⟩⟩
  · rcases (watched.builds id).waits f at_ named t waits with ⟨d, mem, rfl⟩ | ⟨d, none_, -⟩
    · obtain ⟨there, mine⟩ := mem_live.1 mem
      by_cases passed : d.fireAt ≤ now
      · refine .inr ⟨d, polled.fired.mem_iff.2 (List.mem_filter.2 ⟨there, ?_⟩), mine ▸ rfl⟩
        exact decide_eq_true passed
      · refine .inl ⟨d, mem_live.2 ⟨polled.left.mem_iff.2 (List.mem_filter.2 ⟨there, ?_⟩), mine⟩,
          rfl⟩
        exact decide_eq_true (Nat.not_le.1 passed)
    · cases none_
  · exact (watched.builds id).owed f at_ alive d (old id d mem)
  · exact (watched.builds id).told d (old id d mem)

/-- A flow accepts the event of a deadline as long as it waits on the command. -/
theorem Orderly.accepts_expired {f : Flow} (orderly : e.Orderly due) (mem : d ∈ e.set_ ++ due)
    (at_ : e.flows.get? d.buildId = some f) (waits : d.token ∈ f.outstanding) :
    f.accepts d.expiredEvent = true := by
  obtain ⟨build, script, c, -, rfl, of, made⟩ := orderly.flows _ f at_
  obtain ⟨m, sent, for_⟩ := made d mem rfl
  have run := (of.unchecked.slotted.made m sent).2
  obtain ⟨p, posted, rfl⟩ := List.mem_map.1 sent
  exact of.accepts posted (for_.token ▸ waits) (for_.matches run)

/-- A deadline that has had its turn stands for no command any more. -/
theorem Orderly.settled_of_expired {due : List Deadline} {g : Flow}
    (orderly : e.Orderly (d :: due)) (named : d.buildId.isBlank = false)
    (at_ : (e.onEvent d.expiredEvent).1.flows.get? d.buildId = some g) :
    d.token ∉ g.outstanding := by
  intro waits
  have valid := Deadline.validate_expiredEvent named
  cases was : e.flows.get? d.buildId with
  | none =>
      rw [onEvent_of_idle fun _ => was, was] at at_
      cases at_
  | some f =>
      have due_ : d ∈ e.set_ ++ d :: due := List.mem_append_right _ List.mem_cons_self
      obtain ⟨-, -, build, script, first, c, own, rfl, settlement⟩ := orderly.handed valid was
      rcases settlement.waits (own ▸ at_) waits with ⟨waited, -⟩ | ⟨late, -⟩
      · exact orderly.settled_of_accepted valid was (orderly.accepts_expired due_ was waited) at_
          waits
      · have early := orderly.low due_ was
        omega

/-- A deadline has its turn. -/
theorem Watched.expired (watched : e.Watched timeout (d :: due) log) :
    (e.onEvent d.expiredEvent).1.Watched timeout due
      (log ++ dispatchedAt e.clock.elapsed (e.onEvent d.expiredEvent).2.1) := by
  obtain ⟨orderly, set_, builds⟩ := watched.moves (watched.orderly.onEvent d.expiredEvent)
  refine ⟨orderly.mono fun _ => List.mem_cons_of_mem _, set_, fun id =>
    ⟨fun f at_ named t waits => ?_, (builds id).owed, (builds id).told⟩⟩
  refine ((builds id).waits f at_ named t waits).imp_right ?_
  rintro ⟨d', mem, key⟩
  rcases List.mem_cons.1 mem with rfl | later
  · obtain ⟨rfl, rfl⟩ := Prod.mk.inj key
    exact absurd waits (watched.orderly.settled_of_expired named at_)
  · exact ⟨d', later, key⟩

/-- The deadlines that are due have their turn one after the other. -/
theorem Watched.onEvents (watched : e.Watched timeout due log) :
    (e.onEvents (due.map Deadline.expiredEvent)).1.Watched timeout []
      (log ++ dispatchedAt e.clock.elapsed (e.onEvents (due.map Deadline.expiredEvent)).2) := by
  induction due generalizing e log with
  | nil => exact (List.append_nil log).symm ▸ watched
  | cons d due ih =>
      have clock : (e.onEvent d.expiredEvent).1.clock = e.clock :=
        (watched.orderly.onEvent d.expiredEvent).confined.frame ▸ rfl
      have rest := ih watched.expired
      rw [clock, List.append_assoc, ← dispatchedAt_append] at rest
      exact rest

theorem Watched.fireDeadlines (watched : e.Watched timeout [] log) :
    e.fireDeadlines.1.Watched timeout []
      (log ++ dispatchedAt e.clock.elapsed e.fireDeadlines.2.1) :=
  (watched.polled e.clock.elapsed.nanos).onEvents

/-! ## Runs -/

theorem Watched.step (watched : e.Watched timeout [] log) (op : Operation) :
    (e.step op).after.Watched timeout []
      (log ++ dispatchedAt e.clock.elapsed (e.step op).acts) := by
  cases names : op.build? with
  | some id => exact watched.moves (watched.orderly.named names)
  | none =>
      rcases e.perform_of_unnamed names with rfl | ⟨clock, mailboxes, same⟩
      · exact watched.fireDeadlines
      · rw [Engine.step, same]
        change Watched timeout [] (log ++ []) _
        rw [List.append_nil]
        exact ⟨watched.orderly.reset clock mailboxes, watched.set_, fun id =>
          ⟨(watched.builds id).waits, (watched.builds id).owed, (watched.builds id).told⟩⟩

theorem Watched.run (watched : e.Watched timeout [] log) (ops : List Operation) :
    (e.after ops).Watched timeout [] (log ++ dispatches (e.run ops)) := by
  induction ops generalizing e log with
  | nil => exact (List.append_nil log).symm ▸ watched
  | cons op ops ih =>
      have rest := ih (watched.step op)
      rw [List.append_assoc] at rest
      exact rest

theorem Watched.matched (watched : e.Watched timeout [] log) : e.Matched timeout log := by
  have sound := watched.orderly.sound
  refine ⟨fun id f at_ named t waits => ?_, fun id f at_ => (watched.builds id).owed f at_,
    fun d mem => ?_, sound.size_eq⟩
  · rcases (watched.builds id).waits f at_ named t waits with ⟨d, mem, rfl⟩ | ⟨d, none_, -⟩
    · obtain ⟨there, rfl⟩ := mem_live.1 mem
      obtain ⟨x, last, same⟩ := (watched.builds _).told d mem
      refine ⟨x, last, ?_⟩
      rw [← same]
      exact Course.filter_of_nodup_map sound.live_keys there
    · cases none_
  · exact Option.ne_none_iff_exists'.1
      (watched.orderly.owners d (e.deadlines.live_subset mem))

/-- The live deadlines match the commands that are waited on, behind every run of an engine whose
commands have to be answered within a time. -/
theorem matched_after (chains : Chains) (mailboxes : Mailboxes) (timeout : Span)
    (clock : Time.Clock) (ops : List Operation) :
    let e : Engine := { chains, mailboxes, stepTimeout := some timeout, clock }
    (e.after ops).Matched timeout (dispatches (e.run ops)) := by
  intro e
  have fresh : e.Watched timeout [] [] :=
    ⟨orderly_new chains mailboxes (some timeout) clock, rfl, fun id => .gone rfl rfl⟩
  exact (fresh.run ops).matched

end Watched
end Engine
end BuildPipeline
