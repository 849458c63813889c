import BuildPipeline.Proofs.Engine.Operations

/-!
The commands that an engine hands over, those that are refused among them. A flow gives every
command the number after that of the command before, and settling hands over all commands of the
flow in order, so what a call hands over is numbered on from where the flow was
(`Engine.Dealt`). Those that go out are those that are not refused (`Engine.sent_handed`).
-/

namespace BuildPipeline

/-- The commands that are handed over while a flow settles, in order. -/
def Desk.handed (desk : Desk) (f : Flow) (effects : List Effect) : List (Address × Command) :=
  match effects with
  | [] => []
  | .publish _ :: rest => handed desk f rest
  | .finish _ :: rest => handed desk f rest
  | .dispatch address command :: rest =>
    match desk.mailboxes.refusal? address with
    | none => (address, command) :: handed desk f rest
    | some why =>
      if _accepted : f.accepts (command.refused why) = true then
        (address, command) :: handed desk (f.process (command.refused why) desk.now).1
          (rest ++ (f.process (command.refused why) desk.now).2)
      else (address, command) :: handed desk f rest
termination_by (f.weight, effects.length)
decreasing_by
  all_goals first
    | exact Prod.Lex.right _ (by simp)
    | exact Prod.Lex.left _ _ (Flow.weight_process_lt _accepted (Command.refused_isSuccess _ _))

/-- Nothing refuses a command at an address. -/
def Mailboxes.takes (m : Mailboxes) (address : Address) : Bool :=
  (m.refusal? address).isNone

/-- Commands are numbered on from `n`. -/
def Numbered (n : Nat) (sent : List Command) : Prop :=
  sent.map (·.token.number) = List.range' (n + 1) sent.length

section Numbered

variable {n : Nat} {m : Command} {sent more : List Command}

theorem numbered_nil (n : Nat) : Numbered n [] :=
  rfl

theorem numbered_cons :
    Numbered n (m :: sent) ↔ m.token.number = n + 1 ∧ Numbered (n + 1) sent := by
  rw [Numbered, List.map_cons, List.length_cons, List.range'_succ, List.cons.injEq]
  rfl

theorem Numbered.append (one : Numbered n sent) (two : Numbered (n + sent.length) more) :
    Numbered n (sent ++ more) := by
  unfold Numbered at *
  rw [List.map_append, List.length_append, one, two, Nat.add_right_comm, List.range'_append_1]

theorem Numbered.nodup (numbered : Numbered n sent) : (sent.map (·.token)).Nodup := by
  have numbers : (sent.map (·.token.number)).Nodup := by
    rw [numbered]
    exact List.nodup_range'
  refine .of_map (·.number) ?_
  rw [List.map_map]
  exact numbers

theorem Numbered.le (numbered : Numbered n sent) (mem : m ∈ sent) :
    m.token.number ≤ n + sent.length := by
  have number : m.token.number ∈ sent.map (·.token.number) := List.mem_map_of_mem mem
  rw [numbered, List.mem_range'_1] at number
  omega

end Numbered

namespace Desk

variable {f : Flow} {s : Deadlines} {effects : List Effect} {n : Nat}

/-- What goes out is what is handed over and not refused. -/
theorem sent_handed (desk : Desk) (f : Flow) (s : Deadlines) (effects : List Effect) :
    (desk.settle f s effects).acts.filterMap Act.sent? =
      (desk.handed f effects).filter fun x => desk.mailboxes.takes x.1 := by
  fun_induction desk.settle f s effects with
  | case1 f s =>
      rw [handed]
      rfl
  | case2 f s build rest settled ih =>
      rw [handed, ← ih]
      rfl
  | case3 f s build rest settled ih =>
      rw [handed, ← ih]
  | case4 f s a command rest free settled ih =>
      have takes : desk.mailboxes.takes a = true := by rw [Mailboxes.takes, free]; rfl
      simp only [handed, free, List.filter_cons, takes, if_true, ← ih]
      rfl
  | case5 f s a command rest why full accepted ih =>
      have refuses : desk.mailboxes.takes a = false := by rw [Mailboxes.takes, full]; rfl
      rw [ih]
      simp only [handed, full, accepted, dite_true, List.filter_cons, refuses, Bool.false_eq_true,
        if_false]
  | case6 f s a command rest why full rejected ih =>
      have refuses : desk.mailboxes.takes a = false := by rw [Mailboxes.takes, full]; rfl
      rw [ih]
      simp only [handed, full, dif_neg rejected, List.filter_cons, refuses, Bool.false_eq_true,
        if_false]

/-- What is handed over is numbered on from where the flow was, and so is the flow. -/
theorem numbered_handed (desk : Desk) (s : Deadlines) (left : Numbered n (commands effects))
    (minted : f.minted = n + (commands effects).length) :
    Numbered n ((desk.handed f effects).map (·.2)) ∧
      (desk.settle f s effects).flow.minted = n + (desk.handed f effects).length := by
  fun_induction desk.settle f s effects generalizing n with
  | case1 f s =>
      rw [handed]
      exact ⟨numbered_nil n, minted⟩
  | case2 f s build rest settled =>
      rename_i ih
      rw [handed]
      exact ih left minted
  | case3 f s build rest settled =>
      rename_i ih
      rw [handed]
      exact ih left minted
  | case4 f s a command rest free settled =>
      rename_i ih
      rw [commands_dispatch] at left minted
      obtain ⟨number, left⟩ := numbered_cons.1 left
      obtain ⟨numbers, last⟩ := ih left (by rw [minted, List.length_cons]; omega)
      simp only [handed, free, List.map_cons, List.length_cons]
      exact ⟨numbered_cons.2 ⟨number, numbers⟩, by rw [last]; omega⟩
  | case5 f s a command rest why full accepted ih =>
      rw [commands_dispatch] at left minted
      obtain ⟨number, left⟩ := numbered_cons.1 left
      -- what the refusal brings is numbered on from where the flow is
      have fills := Flow.fills_call f (.process (command.refused why) desk.now)
      have from_ : f.minted = n + 1 + (commands rest).length := by
        rw [minted, List.length_cons]
        omega
      have all : Numbered (n + 1) (commands rest ++
          commands (f.call (.process (command.refused why) desk.now)).2) :=
        left.append (from_ ▸ fills.tokens)
      obtain ⟨numbers, last⟩ := ih (commands_append .. ▸ all) (by
        rw [commands_append, List.length_append, ← Nat.add_assoc, ← from_]
        exact fills.minted)
      simp only [handed, full, accepted, dite_true, List.map_cons, List.length_cons]
      exact ⟨numbered_cons.2 ⟨number, numbers⟩, by rw [last]; omega⟩
  | case6 f s a command rest why full rejected ih =>
      rw [commands_dispatch] at left minted
      obtain ⟨number, left⟩ := numbered_cons.1 left
      obtain ⟨numbers, last⟩ := ih left (by rw [minted, List.length_cons]; omega)
      simp only [handed, full, dif_neg rejected, List.map_cons, List.length_cons]
      exact ⟨numbered_cons.2 ⟨number, numbers⟩, by rw [last]; omega⟩

/-- Only commands of its build are handed over for a flow. -/
theorem handed_own {id : BuildId} (desk : Desk) (flow : f.build.id = id)
    (own : ∀ x ∈ effects, x.build.id = id) : ∀ x ∈ desk.handed f effects, x.2.build.id = id := by
  fun_induction desk.handed f effects with
  | case1 f => exact List.forall_mem_nil _
  | case2 f build rest ih => exact ih flow (List.forall_mem_cons.1 own).2
  | case3 f build rest ih => exact ih flow (List.forall_mem_cons.1 own).2
  | case4 f a command rest free ih =>
      obtain ⟨mine, left⟩ := List.forall_mem_cons.1 own
      exact List.forall_mem_cons.2 ⟨mine, ih flow left⟩
  | case5 f a command rest why full accepted ih =>
      obtain ⟨mine, left⟩ := List.forall_mem_cons.1 own
      have owns := Flow.owns_process f (command.refused why) desk.now
      have more := fun x mem => (owns.own x mem).trans flow
      exact List.forall_mem_cons.2
        ⟨mine, ih (owns.id.trans flow) (List.forall_mem_append.2 ⟨left, more⟩)⟩
  | case6 f a command rest why full rejected ih =>
      obtain ⟨mine, left⟩ := List.forall_mem_cons.1 own
      exact List.forall_mem_cons.2 ⟨mine, ih flow left⟩

end Desk

namespace Engine

/-- The commands that are handed over when an event is routed. -/
def handedOn (e : Engine) (event : Event) : List (Address × Command) :=
  match event.validate, e.flows.get? event.buildId with
  | .ok (), some f =>
    let (g, effects) := f.process event e.clock.now
    e.desk.handed g effects
  | _, _ => []

/-- The commands that are handed over when events are routed one after the other. -/
def handedOnAll (e : Engine) : List Event → List (Address × Command)
  | [] => []
  | event :: events => e.handedOn event ++ (e.onEvent event).1.handedOnAll events

/-- The commands that are handed over in an operation, whether they are refused or not. -/
def handed (e : Engine) : Operation → List (Address × Command)
  | .request (.start id build script) =>
    if build.status ≠ .parked ∨ e.flows.contains id then []
    else
      let f : Flow := { build := { build with id }, script, chains := e.chains }
      let (g, effects) := f.start e.clock.now
      e.desk.handed g effects
  | .request (.event event) => e.handedOn event
  | .request (.abort id) =>
    match e.flows.get? id with
    | none => []
    | some f => e.desk.handed (f.abort e.clock.now).1 (abortEffects f e.clock.now)
  | .request .fire =>
    let (expired, deadlines) := e.deadlines.poll e.clock.elapsed.nanos
    { e with deadlines }.handedOnAll (expired.map Deadline.expiredEvent)
  | .request (.delete _) | .request (.advance _) | .request (.close _) => []
  | .flowEnd _ | .storeFailing _ | .containersFailing _ => []

/-- How the commands of a build are numbered that are handed over while its flow was called, if
there is one. -/
inductive Deals (before after : Option Flow) (handed : List (Address × Command)) : Prop
  | nothing (silent : handed = []) (same : ∀ g, after = some g → before = some g)
  | more {f : Flow} (was : before = some f) (numbers : Numbered f.minted (handed.map (·.2)))
      (minted : ∀ g, after = some g → g.minted = f.minted + handed.length)

/-- A call that names a build hands over commands of this build. Those that go out are among
them. -/
structure Dealt (id : BuildId) (e e' : Engine) (acts : List Act)
    (handed : List (Address × Command)) : Prop where
  own : ∀ x ∈ handed, x.2.build.id = id
  sent : acts.filterMap Act.sent? = handed.filter fun x => e.mailboxes.takes x.1
  deals : Deals (e.flows.get? id) (e'.flows.get? id) handed

section Dealt

variable {e : Engine} {due : List Deadline} {id : BuildId} {f g : Flow} {effects : List Effect}
  {acts : List Act} {call : Call} {op : Operation}

theorem Dealt.nothing {e' : Engine} (silent : acts.filterMap Act.sent? = [])
    (same : ∀ g, e'.flows.get? id = some g → e.flows.get? id = some g) :
    Dealt id e e' acts [] :=
  ⟨List.forall_mem_nil _, silent, .nothing rfl same⟩

/-- A flow that has settled is filed as it is then, if it is still there. -/
theorem get?_settle (minds : Minds id f effects [] none)
    (there : (e.settle id f effects).1.flows.get? id = some g) :
    g = (e.desk.settle f {} effects).flow := by
  rw [settle_eq minds] at there
  cases finished : (e.desk.settle f {} effects).ended with
  | none =>
      rw [finished, keep, FlowTable.get?_put] at there
      exact (Option.some.inj there).symm
  | some b =>
      rw [finished, drop, FlowTable.get?_erase] at there
      cases there

theorem sent_settle (minds : Minds id f effects [] none) :
    (e.settle id f effects).2.filterMap Act.sent? =
      (e.desk.handed f effects).filter fun x => e.mailboxes.takes x.1 := by
  rw [acts_settle minds, List.filterMap_append, Desk.sent_handed]
  cases (e.desk.settle f {} effects).ended <;> exact List.append_nil _

/-- What a call on a flow hands over is numbered on from where the flow was. -/
theorem numbered_called (minds : Minds id (f.call call).1 effects [] none)
    (left : commands effects = commands (f.call call).2) :
    Numbered f.minted ((e.desk.handed (f.call call).1 effects).map (·.2)) ∧
      ∀ g, (e.settle id (f.call call).1 effects).1.flows.get? id = some g →
        g.minted = f.minted + (e.desk.handed (f.call call).1 effects).length := by
  have fills := Flow.fills_call f call
  obtain ⟨numbers, minted⟩ := e.desk.numbered_handed {} (left ▸ fills.tokens) (left ▸ fills.minted)
  exact ⟨numbers, fun g there => (get?_settle minds there).symm ▸ minted⟩

/-- A call on an active flow. -/
theorem Orderly.dealt_called (orderly : e.Orderly due) (at_ : e.flows.get? id = some f)
    (call : Call) (left : commands effects = commands (f.call call).2)
    (own : ∀ x ∈ effects, x.build.id = f.build.id) :
    Dealt id e (e.settle id (f.call call).1 effects).1 (e.settle id (f.call call).1 effects).2
      (e.desk.handed (f.call call).1 effects) := by
  obtain ⟨build, script, c, rfl, rfl, of, -⟩ := orderly.flows id f at_
  have owns : Flow.Owns c.flow effects (c.flow.call call).1 :=
    ⟨(Flow.owns_call c.flow call).id, own⟩
  have minds := Minds.of_owns owns of.ids.1
  obtain ⟨numbers, minted⟩ := numbered_called (e := e) minds left
  exact ⟨e.desk.handed_own minds.flow minds.effects, sent_settle minds, .more at_ numbers minted⟩

theorem Orderly.dealt_onEvent (orderly : e.Orderly due) (event : Event) :
    Dealt event.buildId e (e.onEvent event).1 (e.onEvent event).2.1 (e.handedOn event) := by
  rcases e.routed_or_idle event with ⟨f, valid, at_⟩ | idle
  · obtain ⟨cancelled, -, -⟩ := orderly.answered f event e.clock.now
    have dealt := cancelled.dealt_called at_ (.process event e.clock.now) rfl
      (Flow.owns_call f _).own
    have same : e.handedOn event = (e.answered f event).desk.handed
        (f.call (.process event e.clock.now)).1 (f.call (.process event e.clock.now)).2 := by
      simp only [handedOn, valid, at_]
      rfl
    rw [onEvent_of_active valid at_, same]
    exact ⟨dealt.own, dealt.sent, dealt.deals⟩
  · have silent : e.handedOn event = [] := by
      unfold handedOn
      split
      · rename_i f valid at_
        cases (idle valid).symm.trans at_
      · rfl
    rw [silent, onEvent_of_idle idle]
    exact .nothing rfl fun _ there => there

theorem Orderly.dealt_abort (orderly : e.Orderly due) (id : BuildId) :
    Dealt id e (e.abort id).1 (e.abort id).2.1 (e.handed (.request (.abort id))) := by
  cases at_ : e.flows.get? id with
  | none =>
      simp only [Engine.handed, at_]
      rw [abort_of_idle at_]
      exact .nothing rfl fun _ there => there
  | some f =>
      obtain ⟨left, -, own⟩ := abortEffects_silent f e.clock.now
      have dealt := orderly.dealt_called at_ (.abort e.clock.now) left own
      have unsent : (killing (f.abort e.clock.now).2).filterMap Act.sent? = [] :=
        List.map_eq_nil_iff.1 (silent_killing _).1
      simp only [Engine.handed, at_]
      rw [abort_of_active at_]
      refine ⟨dealt.own, ?_, dealt.deals⟩
      rw [List.filterMap_append, unsent, List.append_nil]
      exact dealt.sent

/-- A build that is started has its commands numbered from the first. -/
theorem handed_start {b : Build} (parked : b.status = .parked)
    (none_ : e.flows.get? id = none) (script : Option String) :
    let handed := e.handed (.request (.start id b script))
    (∀ x ∈ handed, x.2.build.id = id) ∧
      (e.start id b script).2.1.filterMap Act.sent? =
        handed.filter (fun x => e.mailboxes.takes x.1) ∧
      Numbered 0 (handed.map (·.2)) ∧
      ∀ g, (e.start id b script).1.flows.get? id = some g → g.minted = handed.length := by
  intro handed
  have free : e.flows.contains id = false := by simp [FlowTable.contains, none_]
  have minds : Minds id _ _ [] none := .of_owns
    (Flow.owns_call (Course.idle { b with id } script e.chains).flow (.start e.clock.now)) rfl
  have same : handed = e.desk.handed
      ((Course.idle { b with id } script e.chains).flow.call (.start e.clock.now)).1
      ((Course.idle { b with id } script e.chains).flow.call (.start e.clock.now)).2 := by
    simp only [handed, Engine.handed, parked, free, ne_eq, not_true_eq_false, Bool.false_eq_true,
      or_self, if_false]
    rfl
  rw [same, start_of_free parked none_]
  obtain ⟨numbers, minted⟩ := numbered_called (e := e) minds rfl
  exact ⟨e.desk.handed_own minds.flow minds.effects, sent_settle minds, numbers,
    fun g there => (minted g there).trans (Nat.zero_add _)⟩

end Dealt
end Engine
end BuildPipeline
