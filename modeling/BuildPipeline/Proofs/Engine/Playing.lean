import BuildPipeline.Proofs.Engine.Handling
import BuildPipeline.Proofs.Flow.Aborting
import BuildPipeline.Proofs.Flow.Reporting
import BuildPipeline.Proofs.Flow.Waiting
import Mathlib.Logic.Function.Iterate

/-!
Settling as a run of the flow. A flow asks for effects and does nothing itself, so what settling
makes of it is the run of this flow alone (`Flow.play`) on the call that was made and on a failure
for every command that is refused. The effects of the run stand in one queue, in the order in which
the flow asked for them, and the loop takes one of them off at each pass (`Desk.pass`). It stops
when all of them had their turn (`Desk.Plays`, `Unfolds.settle`).

The flow is handed failures while effects from before are still in the queue. What keeps these in
order is that every command in the queue is waited on (`Unfolds.awaits`). As long as the flow is not
aborted, a failure takes no other command off. An aborted flow commands tear-down only, one provider
at a time, so that nothing else is in the queue.
-/

namespace BuildPipeline

open Time (Moment)

/-- Makes calls one after the other; the effects are those of all calls, in order. -/
def Flow.play (f : Flow) : List Call → Flow × List Effect
  | [] => (f, [])
  | call :: calls =>
    let (g, effects) := f.call call
    let (h, more) := g.play calls
    (h, effects ++ more)

namespace Desk

/-- The call by which the carrying out of an effect answers the flow, if it does. -/
def answer? (desk : Desk) (x : Effect) : Option Call :=
  match (x.carryOut desk.mailboxes).2 with
  | some (.event e) => some (.process e desk.now)
  | _ => none

/-- The calls by which the carrying out of effects answers the flow, in order. -/
def answers (desk : Desk) (effects : List Effect) : List Call :=
  effects.filterMap desk.answer?

/-- One pass of the loop: it takes the first effect off the queue, and what an answer to it makes
the flow ask for goes to the end of the queue. -/
def pass (desk : Desk) : Flow × List Effect → Flow × List Effect
  | (f, []) => (f, [])
  | (f, x :: rest) =>
    match desk.answer? x with
    | none => (f, rest)
    | some call => ((f.call call).1, rest ++ (f.call call).2)

/-- The turn of an effect, behind those in `done`. It is at the head of the queue, the flow is what
the run on the answers to `done` makes of it, and a command is waited on then. -/
def Reaches (desk : Desk) (f : Flow) (call : Call) (done : List Effect) (x : Effect) : Prop :=
  ∃ g later, desk.pass^[done.length] (f.call call) = (g, x :: later) ∧
    f.play (call :: desk.answers done) = (g, done ++ x :: later) ∧
    ∀ a m, x = .dispatch a m → m.token ∈ g.outstanding

/-- The loop behind a call on a flow. `all` has the effects of the run on the call and on the
answers to these effects, and `g` is what the run makes of the flow. The loop takes as many passes
as there are effects, each effect has its turn, and answers are made at the turns. -/
structure Plays (desk : Desk) (f : Flow) (call : Call) (all : List Effect) (g : Flow) : Prop where
  played : f.play (call :: desk.answers all) = (g, all)
  passes : desk.pass^[all.length] (f.call call) = (g, [])
  turns : ∀ done x rest, all = done ++ x :: rest → desk.Reaches f call done x

end Desk

section Pass

variable {desk : Desk} {f : Flow} {a : Address} {m : Command} {why : Undeliverable} {x : Effect}
  {one two : List Effect} {call : Call}

theorem Flow.play_concat (f : Flow) (calls : List Call) (call : Call) :
    f.play (calls ++ [call]) =
      (((f.play calls).1.call call).1, (f.play calls).2 ++ ((f.play calls).1.call call).2) := by
  induction calls generalizing f with
  | nil => simp [play]
  | cons first calls ih => simp [play, ih]

theorem Desk.answer?_sent (open_ : desk.mailboxes.refusal? a = none) :
    desk.answer? (.dispatch a m) = none := by
  simp [answer?, Effect.carryOut, open_]

theorem Desk.answer?_refused (full : desk.mailboxes.refusal? a = some why) :
    desk.answer? (.dispatch a m) = some (.process (m.refused why) desk.now) := by
  simp [answer?, Effect.carryOut, full]

theorem Desk.answers_concat (one : List Effect) (x : Effect) :
    desk.answers (one ++ [x]) = desk.answers one ++ (desk.answer? x).toList := by
  cases answer : desk.answer? x <;> simp [answers, answer]

theorem carryOutAll_append (mailboxes : Mailboxes) :
    (Effect.carryOutAll mailboxes (one ++ two)).1 =
      (Effect.carryOutAll mailboxes one).1 ++ (Effect.carryOutAll mailboxes two).1 :=
  List.flatMap_append

end Pass

/-! ## Commands that have not had their turn -/

namespace Course

variable {build : Build} {script : Option String} {chains : Chains} {c : Course} {call : Call}
  {m : Command} {e : Event} {now : Moment} {t : Token}

/-- A command that a call asks for is waited on behind the call. -/
theorem Grows.awaits (grows : Grows chains c call)
    (asked : m ∈ BuildPipeline.commands (c.entry call).effects) :
    m.token ∈ (c.then_ call).flow.outstanding := by
  obtain ⟨sent, sends, rfl⟩ := List.mem_map.1 asked
  exact grows.waits_of_posted (p := Entry.posting _ sent) (List.mem_map_of_mem sends)

/-- Behind an event that it accepts an aborted flow is not on the run. -/
theorem Of.off_accepted (of : Of build script chains c) (accepted : c.flow.accepts e = true)
    (aborted : (c.flow.process e now).1.aborted = true) :
    (c.flow.process e now).1.leg? ≠ some .run := by
  have aborted' : c.flow.aborted = true :=
    (Flow.steady_process c.flow e now).aborted.symm.trans aborted
  have going : c.flow.legs ≠ [] := by
    intro none_
    simpa [Flow.leg?, none_] using (Flow.accepts_inv accepted).2
  rw [Flow.process_of_accepted accepted]
  exact (Flow.abortedReply_drive of.unchecked.stands aborted' going (some e) now).off

/-- Behind an event an aborted flow is not on the run, unless it asked for no command. -/
theorem Of.off_process (of : Of build script chains c)
    (aborted : (c.flow.process e now).1.aborted = true) :
    BuildPipeline.commands (c.flow.process e now).2 = [] ∨
      (c.flow.process e now).1.leg? ≠ some .run := by
  cases accepted : c.flow.accepts e with
  | true => exact .inr (of.off_accepted accepted aborted)
  | false =>
      have ignores := Flow.ignores_of_rejected accepted now
      generalize c.flow.process e now = r at ignores
      cases ignores with
      | same => exact .inl rfl
      | updates => exact .inl rfl

/-- Off the run a flow waits on one command at most. -/
theorem Of.single (of : Of build script chains c) (off : c.flow.leg? ≠ some .run)
    {s : Token} (one : s ∈ c.flow.outstanding) (other : t ∈ c.flow.outstanding) : s = t := by
  have poised := Flow.poised_of_rests of.rests
  have step : c.flow.leg? = some .setup ∨ c.flow.leg? = some .tearDown := by
    rcases poised.waits with ⟨-, -, none_⟩ | ⟨-, leg, -⟩
    · rw [none_] at one
      cases one
    · cases on : c.flow.leg? with
      | none => exact absurd on leg
      | some k =>
          cases k with
          | setup => exact .inl rfl
          | run => exact absurd on off
          | tearDown => exact .inr rfl
  obtain ⟨⟨u, all, -⟩, -⟩ := poised.step step
  rw [all, List.mem_singleton] at one other
  exact one.trans other.symm

end Course

/-- The build that a flow ends with is the first that it tells. -/
theorem Flow.first_finish {f : Flow} {ended : Option Build} {b : Build} {rest : List Effect}
    (ending : ended.toList ++ ends (.finish b :: rest) = f.result) :
    (some b).toList = ended.toList ++ ends [.finish b] := by
  have one : f.result.length ≤ 1 := by
    unfold Flow.result
    split <;> simp
  have none_ : ended.toList = [] := by
    rw [← ending, ends_finish, List.length_append, List.length_cons] at one
    exact List.length_eq_zero_iff.1 (by omega)
  rw [none_]
  rfl

/-! ## The loop -/

/-- A flow while the effects of a call on it are carried out. `first` is the flow that was called,
`done` has the effects that had their turn, and `effects` those that are in the queue. -/
structure Unfolds (desk : Desk) (first : Course) (call : Call) (c : Course)
    (done effects : List Effect) (acts : List Act) (ended : Option Build) : Prop where
  played : first.flow.play (call :: desk.answers done) = (c.flow, done ++ effects)
  passes : desk.pass^[done.length] (first.flow.call call) = (c.flow, effects)
  asked : c.effects = first.effects ++ (done ++ effects)
  acts : acts = (Effect.carryOutAll desk.mailboxes done).1
  ended : ended.toList = ends done
  turns : ∀ early x late, done = early ++ x :: late → desk.Reaches first.flow call early x
  awaits : ∀ m ∈ commands effects, m.token ∈ c.flow.outstanding
  off : c.flow.aborted = true → commands effects = [] ∨ c.flow.leg? ≠ some .run

section Unfolds

variable {desk : Desk} {build b : Build} {script : Option String} {chains : Chains}
  {first c : Course} {call : Call} {done effects : List Effect} {acts : List Act}
  {ended ended' : Option Build} {a : Address} {m : Command} {why : Undeliverable} {x : Effect}

theorem Unfolds.begin (desk : Desk) (grows : Course.Grows chains c call)
    (off : (c.then_ call).flow.aborted = true →
      commands (c.flow.call call).2 = [] ∨ (c.then_ call).flow.leg? ≠ some .run) :
    Unfolds desk c call (c.then_ call) [] (c.entry call).effects [] none := by
  refine ⟨?_, rfl, c.effects_then_ call, rfl, rfl, ?_, fun m => grows.awaits, off⟩
  · simp [Desk.answers, Flow.play, Course.then_, Course.entry]
  · intro early x late split
    simp at split

/-- It is the turn of the first effect in the queue. -/
theorem Unfolds.reaches (h : Unfolds desk first call c done (x :: effects) acts ended) :
    desk.Reaches first.flow call done x := by
  refine ⟨c.flow, effects, h.passes, h.played, ?_⟩
  rintro a m rfl
  exact h.awaits m (by simp)

theorem Unfolds.turns_concat (h : Unfolds desk first call c done (x :: effects) acts ended) :
    ∀ early y late, done ++ [x] = early ++ y :: late → desk.Reaches first.flow call early y := by
  intro early y late split
  rcases List.eq_nil_or_concat late with rfl | ⟨rest, z, rfl⟩
  · obtain ⟨rfl, same⟩ := List.append_inj' split rfl
    cases same
    exact h.reaches
  · rw [List.concat_eq_append, ← List.cons_append, ← List.append_assoc] at split
    exact h.turns early y rest (List.append_inj' split rfl).1

/-- An effect that is not answered leaves the flow alone. -/
theorem Unfolds.next (silent : desk.answer? x = none)
    (h : Unfolds desk first call c done (x :: effects) acts ended)
    (over_ : ended'.toList = ended.toList ++ ends [x]) :
    Unfolds desk first call c (done ++ [x]) effects
      (acts ++ (x.carryOut desk.mailboxes).1) ended' := by
  have less : commands effects ⊆ commands (x :: effects) := by
    cases x <;> simp [commands]
  refine ⟨?_, ?_, ?_, ?_, ?_, h.turns_concat, fun m mem => h.awaits m (less mem), fun aborted => ?_⟩
  · rw [Desk.answers_concat, silent, Option.toList_none, List.append_nil, h.played]
    simp
  · rw [List.length_append, List.length_singleton, Function.iterate_succ_apply', h.passes]
    simp only [Desk.pass, silent]
  · rw [h.asked]
    simp
  · rw [carryOutAll_append, h.acts]
    simp [Effect.carryOutAll]
  · rw [over_, h.ended, ends_append]
  · refine (h.off aborted).imp_left fun none_ => ?_
    exact List.eq_nil_iff_forall_not_mem.2 fun m mem => by simpa [none_] using less mem

/-- The commands behind one that is refused are still waited on when it has been answered. -/
theorem Unfolds.others (why : Undeliverable)
    (handling : Handling build script chains first call c (.dispatch a m :: effects) acts ended)
    (h : Unfolds desk first call c done (.dispatch a m :: effects) acts ended)
    {n : Command} (mem : n ∈ commands effects) :
    n.token ∈ (c.then_ (.process (m.refused why) desk.now)).flow.outstanding := by
  have waits : n.token ∈ c.flow.outstanding := h.awaits n (by simp [mem])
  have head : m.token ∈ c.flow.outstanding := h.awaits m (by simp)
  have apart : n.token ≠ m.token := by
    have distinct := (tokens_dispatch acts a m effects).nodup_iff.1 handling.distinct
    intro same
    refine (List.nodup_cons.1 distinct).1 (same ▸ List.mem_map_of_mem ?_)
    exact List.mem_append_right _ mem
  cases aborted : c.flow.aborted with
  | false =>
      refine handling.of.waits_on (m.proper_refused why) aborted waits fun e taken => ?_
      obtain ⟨now, same, -⟩ := Course.taken?_eq_some.1 taken
      cases same
      exact apart
  | true =>
      have off : c.flow.leg? ≠ some .run := (h.off aborted).resolve_left (by simp)
      exact absurd (handling.of.single off waits head) apart

/-- A command that is refused is answered at its turn. -/
theorem Unfolds.refused (full : desk.mailboxes.refusal? a = some why)
    (accepted : c.flow.accepts (m.refused why) = true)
    (handling : Handling build script chains first call c (.dispatch a m :: effects) acts ended)
    (h : Unfolds desk first call c done (.dispatch a m :: effects) acts ended) :
    Unfolds desk first call (c.then_ (.process (m.refused why) desk.now))
      (done ++ [.dispatch a m])
      (effects ++ (c.flow.process (m.refused why) desk.now).2) acts ended := by
  have legal : Call.Legal (.process (m.refused why) desk.now) := m.proper_refused why
  have answer : desk.answer? (.dispatch a m) = some (.process (m.refused why) desk.now) :=
    Desk.answer?_refused full
  refine ⟨?_, ?_, ?_, ?_, ?_, h.turns_concat, fun n mem => ?_, fun aborted => ?_⟩
  · rw [Desk.answers_concat, answer, Option.toList_some, ← List.cons_append, Flow.play_concat,
      h.played]
    simp only [List.append_assoc, List.cons_append, List.nil_append]
    rfl
  · rw [List.length_append, List.length_singleton, Function.iterate_succ_apply', h.passes]
    simp only [Desk.pass, answer]
    rfl
  · rw [Course.effects_then_, h.asked]
    simp [Course.entry, Flow.call]
  · rw [carryOutAll_append, h.acts]
    simp [Effect.carryOutAll, Effect.carryOut, full]
  · rw [h.ended]
    simp
  · rcases List.mem_append.1 (commands_append .. ▸ mem) with before | new
    · exact h.others why handling before
    · exact (handling.of.grows legal).awaits new
  · exact .inr (handling.of.off_accepted accepted aborted)

/-- A command in the queue is waited on, so the failure that answers it is accepted. -/
theorem Unfolds.accepts (why : Undeliverable)
    (handling : Handling build script chains first call c (.dispatch a m :: effects) acts ended)
    (h : Unfolds desk first call c done (.dispatch a m :: effects) acts ended) :
    c.flow.accepts (m.refused why) = true := by
  obtain ⟨p, sent, rfl⟩ := List.mem_map.1 handling.own_first.1
  exact handling.of.accepts sent (h.awaits p.command (by simp)) (p.command.matches_refused why)

/-- When the queue is empty, all effects of the run had their turn. -/
theorem Unfolds.plays (h : Unfolds desk first call c done [] acts ended) :
    desk.Plays first.flow call done c.flow := by
  have played := h.played
  rw [List.append_nil] at played
  exact ⟨played, h.passes, h.turns⟩

/-- What settling comes to is what the run on its answers comes to. -/
theorem Unfolds.settle (handling : Handling build script chains first call c effects [] none)
    (h : Unfolds desk first call c [] effects [] none) (s : Deadlines) :
    ∃ c' done, (desk.settle c.flow s effects).flow = c'.flow ∧
      Handling build script chains first call c' [] (desk.settle c.flow s effects).acts
        (desk.settle c.flow s effects).ended ∧
      Unfolds desk first call c' done [] (desk.settle c.flow s effects).acts
        (desk.settle c.flow s effects).ended := by
  suffices settled : ∃ c' done, (desk.settle c.flow s effects).flow = c'.flow ∧
      Handling build script chains first call c' [] ([] ++ (desk.settle c.flow s effects).acts)
        ((desk.settle c.flow s effects).ended <|> none) ∧
      Unfolds desk first call c' done [] ([] ++ (desk.settle c.flow s effects).acts)
        ((desk.settle c.flow s effects).ended <|> none) by
    simpa using settled
  refine desk.settle_rule (fun f _ effects acts ended => ∃ c' done, f = c'.flow ∧
    Handling build script chains first call c' effects acts ended ∧
    Unfolds desk first call c' done effects acts ended) ?_ ?_ ?_ ?_ ?_ []
    ⟨c, [], rfl, handling, h⟩
  · rintro f s b rest acts ended ⟨c, done, rfl, handling, h⟩
    exact ⟨c, _, rfl, handling.publish, h.next rfl (by simp)⟩
  · rintro f s b rest acts ended ⟨c, done, rfl, handling, h⟩
    have next := h.next rfl (Flow.first_finish handling.ending)
    rw [show ((Effect.finish b).carryOut desk.mailboxes).1 = [] from rfl, List.append_nil] at next
    exact ⟨c, _, rfl, handling.finish, next⟩
  · rintro f s a m rest acts ended open_ ⟨c, done, rfl, handling, h⟩
    have next := h.next (Desk.answer?_sent open_) (List.append_nil ended.toList).symm
    have sent : ((Effect.dispatch a m).carryOut desk.mailboxes).1 = [.sent a m] := by
      simp [Effect.carryOut, open_]
    exact ⟨c, _, rfl, handling.sent, sent ▸ next⟩
  · rintro f s a m why rest acts ended full accepted ⟨c, done, rfl, handling, h⟩
    exact ⟨_, _, rfl, handling.refused accepted desk.now, h.refused full accepted handling⟩
  · rintro f s a m why rest acts ended - rejected ⟨c, done, rfl, handling, h⟩
    cases (h.accepts why handling).symm.trans rejected

end Unfolds
end BuildPipeline
