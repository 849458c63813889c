import BuildPipeline.Proofs.Flow.Barrier
import BuildPipeline.Proofs.Flow.Binding
import BuildPipeline.Proofs.Flow.Verdict

/-!
Who made a phase done. A command is confirmed when a reply that was accepted reports its success
(`Course.Confirmed`). On a line of the run every command but the last is confirmed, for the next one
goes out on a success only. A phase becomes done by the success of the last provider of its chain,
and stays done: so the line of a phase that is done goes along the whole chain, and every command on
it is confirmed (`Course.Served`, `Course.Of.served`).
-/

namespace BuildPipeline

open Time (Moment)

namespace Course

/-- A reply that was accepted reports the success of a command. -/
def Confirmed (entries : List Entry) (p : Posting) : Prop :=
  ∃ e ∈ taken entries, e.token = p.command.token ∧ e.isSuccess = true

/-- Every provider along a line was commanded, and confirmed it. -/
structure Whole (chains : Chains) (entries : List Entry) (l : Line) : Prop where
  addresses : (sentOn l entries).map (·.address) = chains.chain l.capability
  confirmed : ∀ p ∈ sentOn l entries, Confirmed entries p

/-- On the run all commands but the last of each line are confirmed, and the lines of the phases
that are done are whole. -/
structure Served (chains : Chains) (c : Course) : Prop where
  behind : ∀ l : Line, l.capability = .runPhase →
    ∀ p ∈ (sentOn l c.entries).dropLast, Confirmed c.entries p
  done : chains.count .runPhase ≠ 0 → ∀ number stage index position,
    c.plan[number]? = some stage → stage.position? index = some position →
      c.flow.build.DoneAt position → Whole chains c.entries ⟨.runPhase, number, index⟩

section Served

variable {build : Build} {script : Option String} {chains : Chains} {c : Course} {call : Call}
  {e : Event} {now : Moment} {l : Line} {p q : Posting}

theorem forall_mem_of_dropLast {α : Type} {P : α → Prop} {l : List α}
    (init : ∀ a ∈ l.dropLast, P a) (last : ∀ a, l.getLast? = some a → P a) : ∀ a ∈ l, P a := by
  rcases List.eq_nil_or_concat l with rfl | ⟨rest, b, rfl⟩
  · exact fun a mem => absurd mem List.not_mem_nil
  · rw [List.concat_eq_append] at init last ⊢
    rw [List.dropLast_concat] at init
    intro a mem
    rcases List.mem_append.1 mem with old | new
    · exact init a old
    · exact last a (List.mem_singleton.1 new ▸ List.getLast?_concat)

/-! ## Lines of the run -/

theorem Confirmed.then_ (confirmed : Confirmed c.entries p) (call : Call) :
    Confirmed (c.then_ call).entries p := by
  obtain ⟨e, mem, own⟩ := confirmed
  refine ⟨e, ?_, own⟩
  rw [taken_then_]
  exact List.mem_append_left _ mem

/-- A reply that the call hands over and that is accepted confirms its command. -/
theorem confirmed_of_taken (accepted : c.flow.accepts e = true) (success : e.isSuccess = true)
    (token : e.token = p.command.token) : Confirmed (c.then_ (.process e now)).entries p := by
  refine ⟨e, ?_, token, success⟩
  have taken : (c.entry (.process e now)).taken? = some e :=
    taken?_eq_some.2 ⟨now, rfl, accepted⟩
  rw [taken_then_, taken]
  exact List.mem_append_right _ (List.mem_singleton.2 rfl)

/-- A command that goes out on a line of the run confirms the last one before it. -/
theorem Logged.confirmed (logged : Logged chains c) (grows : Grows chains c call)
    (mem : q ∈ (c.entry call).postings) (run : q.line.capability = .runPhase)
    (last : (sentOn q.line c.entries).getLast? = some p) :
    Confirmed (c.then_ call).entries p := by
  rcases (follows_of_walk logged grows q mem).2.1 p last with ⟨answers, may⟩
  have kind : q.command.kind = .runPhase := (grows.fits q mem).1.symm.trans run
  rcases may with succeeds | ⟨tearDown, -⟩
  · obtain ⟨e, now, call_eq, accepted, -, token, -⟩ := answers
    obtain ⟨e', now', call_eq', success⟩ := succeeds
    change call = _ at call_eq call_eq'
    subst call_eq
    cases call_eq'
    exact confirmed_of_taken accepted success token
  · rw [kind] at tearDown
    cases tearDown

theorem Logged.behind (logged : Logged chains c) (grows : Grows chains c call)
    (behind : ∀ p ∈ (sentOn l c.entries).dropLast, Confirmed c.entries p)
    (run : l.capability = .runPhase) :
    ∀ p ∈ (sentOn l (c.then_ call).entries).dropLast, Confirmed (c.then_ call).entries p := by
  rw [sentOn_then_]
  have before : ∀ p ∈ (sentOn l c.entries).dropLast, Confirmed (c.then_ call).entries p :=
    fun p mem => (behind p mem).then_ call
  cases new : (c.entry call).postings.filter (·.line = l) with
  | nil =>
      rw [List.append_nil]
      exact before
  | cons q rest =>
      have own : q ∈ (c.entry call).postings.filter (·.line = l) := by
        rw [new]
        exact List.mem_cons_self
      obtain ⟨mem, rfl⟩ : q ∈ (c.entry call).postings ∧ q.line = l := by simpa using own
      obtain rfl : rest = [] := by
        have alone := (follows_of_walk logged grows q mem).1
        rw [new] at alone
        exact (List.cons.inj alone).2
      rw [List.dropLast_concat]
      exact forall_mem_of_dropLast before fun p last => logged.confirmed grows mem run last

theorem exists_of_forall₂ {α β : Type} {R : α → β → Prop} {l : List α} {m : List β}
    (all : List.Forall₂ R l m) {a : α} (mem : a ∈ l) : ∃ b ∈ m, R a b := by
  rcases List.forall₂_iff_get.1 all with ⟨length, related⟩
  rcases List.mem_iff_get.1 mem with ⟨i, rfl⟩
  exact ⟨_, List.get_mem m ⟨i, length ▸ i.2⟩, related i i.2 (length ▸ i.2)⟩

theorem mem_openings {started : List Stage} {begun : Nat} {due : Line × Nat}
    (mem : due ∈ openings chains begun started) :
    ∃ j stage index, started[j]? = some stage ∧ stage.position? index = some due.2 ∧
      due.1 = ⟨.runPhase, begun + j, index⟩ := by
  unfold openings at mem
  split at mem
  · cases mem
  · obtain ⟨⟨stage, number⟩, queued, here⟩ := List.mem_flatMap.1 mem
    obtain ⟨⟨position, index⟩, member, rfl⟩ := List.mem_map.1 here
    obtain ⟨le, at_⟩ := List.mk_mem_zipIdx_iff_le_and_getElem?_sub.1 queued
    refine ⟨number - begun, stage, index, at_, List.mk_mem_zipIdx_iff_getElem?.1 member, ?_⟩
    rw [Nat.add_sub_cancel' le]

/-- The commands of the run go out for phases of stages that were started. -/
theorem Of.staged (of : Of build script chains c) :
    ∀ p ∈ c.postings, p.line.capability = .runPhase →
      ∃ stage position, c.begun[p.line.stage]? = some stage ∧
        stage.position? p.line.index = some position := by
  refine of.induct (motive := fun c => ∀ p ∈ c.postings, p.line.capability = .runPhase →
    ∃ stage position, c.begun[p.line.stage]? = some stage ∧
      stage.position? p.line.index = some position) (fun p mem => absurd mem List.not_mem_nil) ?_
  intro c call logged grows old q mem run
  have kept : ∀ p ∈ c.postings, p.line.capability = .runPhase →
      ∃ stage position, (c.then_ call).begun[p.line.stage]? = some stage ∧
        stage.position? p.line.index = some position := by
    intro p mem run
    obtain ⟨stage, position, at_, place⟩ := old p mem run
    refine ⟨stage, position, ?_, place⟩
    rw [begun_then_, List.getElem?_append_left (List.getElem?_eq_some_iff.1 at_).1]
    exact at_
  rw [postings_then_, List.mem_append] at mem
  rcases mem with before | new
  · exact kept q before run
  · rcases follows_of_walk logged grows q new with ⟨-, -, opens⟩
    cases last : (sentOn q.line c.entries).getLast? with
    | some p =>
        rcases mem_sentOn.1 (List.mem_of_getLast? last) with ⟨mem, line⟩
        rw [← line]
        exact kept p mem (line ▸ run)
    | none =>
        have kind : q.command.kind = .runPhase := (grows.fits q new).1.symm.trans run
        have range := opens (List.getLast?_eq_none_iff.1 last) kind
        have some_ : (c.entry call).started ≠ [] := by
          intro none_
          rw [none_, List.length_nil] at range
          omega
        have among : q ∈ (c.entry call).postings.filter (·.command.kind = .runPhase) := by
          simp [new, kind]
        rcases exists_of_forall₂ (grows.fansOut some_) among with ⟨due, mem, line, -⟩
        obtain ⟨j, stage, index, at_, place, here⟩ := mem_openings mem
        rw [line, here]
        refine ⟨stage, due.2, ?_, place⟩
        rw [begun_then_]
        exact (List.getElem?_append_right (Nat.le_add_right _ _)).trans
          (by rw [Nat.add_sub_cancel_left]; exact at_)

/-! ## Phases that are done -/

/-- A phase is done behind a call if it was done before and no stages were loaded, or if the call
hands over the success of its last provider. -/
theorem Of.done_of_call (of : Of build script chains c) (legal : call.Legal)
    (some_ : chains.count .runPhase ≠ 0) {position : Nat}
    (done : (c.then_ call).flow.build.DoneAt position) :
    c.flow.build.DoneAt position ∧ c.flow.loading? call = none ∨
      ∃ e now, call = .process e now ∧ c.flow.accepts e = true ∧ c.flow.Completes e position := by
  have some_' : c.flow.chains.count .runPhase ≠ 0 := of.chains_eq ▸ some_
  cases call with
  | start => exact legal.elim
  | abort now => exact .inl ⟨Flow.doneAt_abort done, rfl⟩
  | process e now =>
      change (c.flow.process e now).1.build.DoneAt position at done
      cases accepted : c.flow.accepts e with
      | false =>
          have plain := (Flow.plain_of_rejected accepted now).1
          exact .inl ⟨plain.done some_' position done, Flow.loading?_of_rejected accepted⟩
      | true =>
          rw [Flow.process_of_accepted accepted] at done
          rcases of.rests.takes accepted now with ⟨h, takes, onward⟩
          have before := onward.doneAt (takes.chains ▸ some_') done
          refine (takes.done some_' position before).imp id fun completes => ?_
          exact ⟨e, now, rfl, accepted, completes⟩

/-- The last provider of a phase ends its line. -/
theorem Of.ends_line (of : Of build script chains c) (accepted : c.flow.accepts e = true)
    {number index position : Nat} {stage : Stage}
    (completes : c.flow.Completes e position) (at_ : c.plan[number]? = some stage)
    (place : stage.position? index = some position) :
    (sentOn ⟨.runPhase, number, index⟩ c.entries).map (·.address) = chains.chain .runPhase ∧
      ∃ p, (sentOn ⟨.runPhase, number, index⟩ c.entries).getLast? = some p ∧
        p.command.token = e.token := by
  obtain ⟨-, on, -, patch, running, rest, phase, queue, place', sent⟩ := completes
  rcases of.rests.on_run on with ⟨past, stage', at_', last, onRun, inside, -⟩
  have same : stage' = running := by
    rw [onRun.stages_eq at_'] at queue
    exact (List.cons.inj queue).1
  subst same
  -- no other phase of the plan has this position
  have number_eq : number = past := by
    refine Classical.byContradiction fun ne => ?_
    exact onRun.laid.ne_of_stages at_ at_' ne (List.mem_of_getElem? place)
      (List.mem_of_getElem? place') rfl
  subst number_eq
  cases at_.symm.trans at_'
  have index_eq : index = patch.index :=
    (List.getElem?_inj (List.getElem?_eq_some_iff.1 place).1 (onRun.laid.nodup at_)).1
      (place.trans place'.symm)
  subst index_eq
  obtain ⟨-, lane, lane_at, awaited⟩ : e.kind = .phaseEnd ∧
      ∃ lane, c.flow.lanes[patch.index]? = some lane ∧ lane.awaited = some e.token := by
    simpa [on, phase] using (Flow.accepts_inv accepted).2
  have here : c.flow.place c.begun.length ⟨.runPhase, number, patch.index⟩ =
      .on lane.sent (some e.token) := by
    rw [last, ← awaited]
    exact Flow.place_of_running onRun.legs (Nat.succ_pos number) lane_at
  have log := of.logged.lines ⟨.runPhase, number, patch.index⟩
  rcases log.on _ _ here with ⟨length, token⟩
  refine ⟨log.chain.eq_of_length_le ?_, token e.token rfl⟩
  rw [List.length_map, length, ← Flow.sent_of_lane lane_at, ← of.chains_eq]
  exact sent

/-- Nothing more goes out on a line that went along the whole chain. -/
theorem Logged.sentOn_of_whole (logged : Logged chains (c.then_ call))
    (whole : (sentOn l c.entries).map (·.address) = chains.chain l.capability) :
    sentOn l (c.then_ call).entries = sentOn l c.entries := by
  have chain := (logged.lines l).chain
  rw [sentOn_then_, List.map_append, whole, ← List.append_nil (chains.chain l.capability),
    List.append_assoc, List.prefix_append_right_inj] at chain
  rw [sentOn_then_, List.map_eq_nil_iff.1 (List.prefix_nil.1 chain), List.append_nil]

theorem Of.served_then_ (of : Of build script chains c) (legal : call.Legal)
    (served : Served chains c) : Served chains (c.then_ call) := by
  have grows := of.grows legal
  have logged := of.logged.grow grows
  refine ⟨fun l run => of.logged.behind grows (served.behind l run) run, ?_⟩
  intro some_ number stage index position at_ place done
  have whole : (sentOn ⟨.runPhase, number, index⟩ c.entries).map (·.address) =
        chains.chain .runPhase ∧
      ∀ p ∈ sentOn ⟨.runPhase, number, index⟩ c.entries, Confirmed (c.then_ call).entries p := by
    rcases of.done_of_call legal some_ done with
      ⟨before, none_⟩ | ⟨e, now, rfl, accepted, completes⟩
    · rw [plan_then_, none_] at at_
      have whole := served.done some_ number stage index position at_ place before
      exact ⟨whole.addresses, fun p mem => (whole.confirmed p mem).then_ call⟩
    · rw [plan_of_run _ completes.2.1] at at_
      rcases of.ends_line accepted completes at_ place with ⟨whole, p, last, token⟩
      refine ⟨whole, forall_mem_of_dropLast ?_ ?_⟩
      · exact fun p mem => (served.behind _ rfl p mem).then_ _
      · intro p' last'
        cases last.symm.trans last'
        exact confirmed_of_taken accepted completes.1 token.symm
  have still := logged.sentOn_of_whole whole.1
  exact ⟨still ▸ whole.1, still ▸ whole.2⟩

/-- The lines of the phases that are done are whole. -/
theorem Of.served (of : Of build script chains c) : Served chains c := by
  induction of with
  | start now =>
      refine ⟨fun l run => logged_idle.behind (grows_start now) ?_ run, ?_⟩
      · exact fun p mem => absurd mem List.not_mem_nil
      · intro _ number stage index position at_
        cases at_
  | step of call legal served => exact of.served_then_ legal served

end Served

end Course
end BuildPipeline
