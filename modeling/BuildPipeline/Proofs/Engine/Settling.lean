import BuildPipeline.Proofs.Engine.Covering
import Mathlib.Logic.Relation

/-!
What settling makes of a flow. `Desk.settle_rule` is how facts about settling are proved: what the
handling of one effect preserves, settling preserves. The fact that is proved here is that settling
loses no command that is waited on (`Upkeep`, `Upkeep.settle`): every such command goes out and arms
a deadline, or it is refused and answered at once. Whatever settling comes to, it comes to by calls
on the flow, and the build that it reports is the one that the flow ended with.
-/

namespace BuildPipeline

open Time (Moment Span)

/-- Calls turn one flow into another. -/
def Flow.Becomes : Flow → Flow → Prop :=
  Relation.ReflTransGen fun f g => ∃ call : Call, call.Legal ∧ g = (f.call call).1

theorem Flow.Becomes.call {f g : Flow} (becomes : f.Becomes g) {call : Call} (legal : call.Legal) :
    f.Becomes (g.call call).1 :=
  becomes.tail ⟨call, legal, rfl⟩

/-- What the handling of every effect preserves holds behind settling. `P` is about the flow, the
deadlines, the effects that are left, what was done so far, and the build with which the flow ended
so far. -/
theorem Desk.settle_rule (desk : Desk)
    (P : Flow → Deadlines → List Effect → List Act → Option Build → Prop)
    (publish : ∀ {f s build rest acts ended}, P f s (.publish build :: rest) acts ended →
      P f s rest (acts ++ [.published build]) ended)
    (finish : ∀ {f s build rest acts ended}, P f s (.finish build :: rest) acts ended →
      P f s rest acts (some build))
    (sent : ∀ {f s address command rest acts ended}, desk.mailboxes.refusal? address = none →
      P f s (.dispatch address command :: rest) acts ended →
      P f (desk.arm s command) rest (acts ++ [.sent address command]) ended)
    (refused : ∀ {f s address command why rest acts ended},
      desk.mailboxes.refusal? address = some why → f.accepts (command.refused why) = true →
      P f s (.dispatch address command :: rest) acts ended →
      P (f.process (command.refused why) desk.now).1 s
        (rest ++ (f.process (command.refused why) desk.now).2) acts ended)
    (dropped : ∀ {f s address command why rest acts ended},
      desk.mailboxes.refusal? address = some why → f.accepts (command.refused why) = false →
      P f s (.dispatch address command :: rest) acts ended → P f s rest acts ended)
    {f : Flow} {s : Deadlines} {effects : List Effect} (acts : List Act) {ended : Option Build}
    (h : P f s effects acts ended) :
    P (desk.settle f s effects).flow (desk.settle f s effects).deadlines []
      (acts ++ (desk.settle f s effects).acts) ((desk.settle f s effects).ended <|> ended) := by
  fun_induction desk.settle f s effects generalizing acts ended with
  | case1 f s => simpa using h
  | case2 f s build rest settled =>
      rename_i ih
      simpa using ih _ (publish h)
  | case3 f s build rest settled =>
      rename_i ih
      have next := ih _ (finish h)
      cases finished : (desk.settle f s rest).ended <;> simpa [settled, finished] using next
  | case4 f s address command rest free settled =>
      rename_i ih
      simpa using ih _ (sent free h)
  | case5 f s address command rest why full accepted ih => exact ih _ (refused full accepted h)
  | case6 f s address command rest why full rejected ih =>
      exact ih _ (dropped full (by simpa using rejected) h)

/-! ## Upkeep -/

section Upkeep

/-- A flow, its deadlines and its effects while the flow settles. `first` is the flow and `before`
are the deadlines as they were, and `ended` is the build with which the flow ended so far. -/
structure Upkeep (due : List Deadline) (limit n : Nat) (first : Flow) (before : Deadlines)
    (build : Build) (script : Option String) (chains : Chains) (c : Course) (s : Deadlines)
    (effects : List Effect) (ended : Option Build) : Prop where
  of : Course.Of build script chains c
  becomes : first.Becomes c.flow
  ordered : s.Ordered
  spared : ∀ d, before.Has d → s.Has d
  ending : ended.toList ++ ends effects = c.flow.result
  kept : build.id.isBlank = false → c.Kept due limit s (sends effects)
  pressed : build.id.isBlank = false → c.Pressed n due (sends effects)

variable {desk : Desk} {timeout : Span} {due : List Deadline} {limit n : Nat} {first : Flow}
  {before s : Deadlines} {build b : Build} {script : Option String} {chains : Chains} {c : Course}
  {effects : List Effect} {ended : Option Build} {a : Address} {command : Command}
  {why : Undeliverable}

theorem Upkeep.publish
    (h : Upkeep due limit n first before build script chains c s (.publish b :: effects) ended) :
    Upkeep due limit n first before build script chains c s effects ended :=
  ⟨h.of, h.becomes, h.ordered, h.spared, h.ending, h.kept, h.pressed⟩

theorem Upkeep.finish
    (h : Upkeep due limit n first before build script chains c s (.finish b :: effects) ended) :
    Upkeep due limit n first before build script chains c s effects (some b) :=
  ⟨h.of, h.becomes, h.ordered, h.spared, Flow.ending_finish h.ending, h.kept, h.pressed⟩

/-- A command that waits in a mailbox arms a deadline. -/
theorem Upkeep.sent (set_ : desk.stepTimeout = some timeout)
    (falls : limit = (desk.elapsed + timeout).nanos)
    (h : Upkeep due limit n first before build script chains c s (.dispatch a command :: effects)
      ended) :
    Upkeep due limit n first before build script chains c (desk.arm s command) effects ended := by
  have arm : desk.arm s command = s.schedule (desk.deadline timeout command) := by
    simp only [Desk.arm, set_]
  rw [arm]
  refine ⟨h.of, h.becomes, h.ordered.schedule _, fun d has => (h.spared d has).schedule _,
    h.ending, ?_, ?_⟩
  · intro named p mem waits
    rcases h.kept named p mem waits with goes | ⟨d, own, has | now_⟩
    · rcases List.mem_cons.1 goes with head | later
      · rcases Prod.mk.inj head with ⟨-, rfl⟩
        have has := s.has_schedule (desk.deadline timeout p.command)
        exact .inr ⟨_, desk.deadline_for timeout _, .inl ⟨has, Nat.le_of_eq falls.symm⟩⟩
      · exact .inl later
    · exact .inr ⟨d, own, .inl ⟨has.1.schedule _, has.2⟩⟩
    · exact .inr ⟨d, own, .inr now_⟩
  · intro named
    rcases h.pressed named with few | ⟨-, none_, -⟩
    · exact .inl few
    · cases none_

/-- A command that is refused and waited on is answered at once. -/
theorem Upkeep.refused (accepted : c.flow.accepts (command.refused why) = true) (now : Moment)
    (h : Upkeep due limit n first before build script chains c s (.dispatch a command :: effects)
      ended) :
    Upkeep due limit n first before build script chains
      (c.then_ (.process (command.refused why) now)) s
      (effects ++ (c.flow.process (command.refused why) now).2) ended := by
  have proper := command.proper_refused why
  have legal : Call.Legal (.process (command.refused why) now) := proper
  have going := (Flow.accepts_inv accepted).1
  have ending := h.ending
  rw [ends_dispatch, Flow.result_of_going going, List.append_eq_nil_iff] at ending
  refine ⟨h.of.step _ legal, h.becomes.call legal, h.ordered, h.spared, ?_, ?_, ?_⟩
  · rw [ends_append, ending.1, ending.2]
    exact h.of.ends_entry legal going
  · intro named
    refine h.of.kept_then_ legal (h.kept named) ?_ ?_
    · rw [sends_append]
      exact List.subset_append_right _ _
    · intro p mem waits unanswered there
      refine there.imp ?_ id
      intro goes
      rcases List.mem_cons.1 goes with head | later
      · rcases Prod.mk.inj head with ⟨-, rfl⟩
        exact absurd (h.of.answers_of_matches proper mem waits (p.command.matches_refused why))
          unanswered
      · rw [sends_append]
        exact List.mem_append_left _ later
  · intro named
    rcases h.pressed named with few | ⟨-, none_, -⟩
    · refine .inl ?_
      have fails : ∀ e now', Call.process (command.refused why) now = .process e now' →
          e.isSuccess = false := by
        rintro e now' ⟨⟩
        exact command.refused_isSuccess why
      rcases h.of.falls legal fails with less | ⟨same, -⟩
      · exact Nat.lt_trans less few
      · exact same ▸ few
    · cases none_

/-- A command that is refused and not waited on is of no more use. -/
theorem Upkeep.dropped (rejected : c.flow.accepts (command.refused why) = false)
    (h : Upkeep due limit n first before build script chains c s (.dispatch a command :: effects)
      ended) :
    Upkeep due limit n first before build script chains c s effects ended := by
  refine ⟨h.of, h.becomes, h.ordered, h.spared, h.ending, ?_, ?_⟩
  · intro named p mem waits
    refine (h.kept named p mem waits).imp ?_ id
    intro goes
    rcases List.mem_cons.1 goes with head | later
    · rcases Prod.mk.inj head with ⟨-, rfl⟩
      rw [h.of.accepts mem waits (p.command.matches_refused why)] at rejected
      cases rejected
    · exact later
  · intro named
    rcases h.pressed named with few | ⟨-, none_, -⟩
    · exact .inl few
    · cases none_

/-- Settling keeps up with what a flow waits on. -/
theorem Upkeep.settle
    (h : Upkeep due limit n first before build script chains c s effects none) (desk : Desk)
    (set_ : desk.stepTimeout = some timeout) (falls : limit = (desk.elapsed + timeout).nanos) :
    ∃ c', (desk.settle c.flow s effects).flow = c'.flow ∧
      Upkeep due limit n first before build script chains c'
        (desk.settle c.flow s effects).deadlines [] (desk.settle c.flow s effects).ended := by
  suffices settled : ∃ c', (desk.settle c.flow s effects).flow = c'.flow ∧
      Upkeep due limit n first before build script chains c'
        (desk.settle c.flow s effects).deadlines []
        ((desk.settle c.flow s effects).ended <|> none) by
    simpa using settled
  refine desk.settle_rule (fun f s effects _ ended => ∃ c', f = c'.flow ∧
    Upkeep due limit n first before build script chains c' s effects ended) ?_ ?_ ?_ ?_ ?_ []
    ⟨c, rfl, h⟩
  · rintro f s b rest acts ended ⟨c, rfl, h⟩
    exact ⟨c, rfl, h.publish⟩
  · rintro f s b rest acts ended ⟨c, rfl, h⟩
    exact ⟨c, rfl, h.finish⟩
  · rintro f s a command rest acts ended - ⟨c, rfl, h⟩
    exact ⟨c, rfl, h.sent set_ falls⟩
  · rintro f s a command why rest acts ended - accepted ⟨c, rfl, h⟩
    exact ⟨_, rfl, h.refused accepted desk.now⟩
  · rintro f s a command why rest acts ended - rejected ⟨c, rfl, h⟩
    exact ⟨c, rfl, h.dropped rejected⟩

end Upkeep
end BuildPipeline
