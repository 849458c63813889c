import BuildPipeline.Proofs.Engine.Arming
import BuildPipeline.Proofs.Flow.Lasting

/-!
What a flow waits on while it settles. Every command of the effects is new, and while the flow is
neither aborted nor over it waits on just these commands, on those that went out meanwhile, and on
what it was waiting on before (`Handling`). The handling of an effect keeps this up
(`Handling.settle`), so that in the end the flow waits on the commands that went out.
-/

namespace BuildPipeline

open Time (Moment Span)

/-- A call leaves a token unanswered. -/
def Course.Leaves (c : Course) (call : Call) (t : Token) : Prop :=
  t ∈ c.flow.outstanding ∧ ∀ e, (c.entry call).taken? = some e → t ≠ e.token

/-- A flow and its effects while the flow settles. `first` is the flow that was called, `c` is what
it has come to, `acts` is what was done so far and `ended` the build with which the flow ended so
far. -/
structure Handling (build : Build) (script : Option String) (chains : Chains) (first : Course)
    (call : Call) (c : Course) (effects : List Effect) (acts : List Act) (ended : Option Build) :
    Prop where
  slotted : Course.Slotted build first
  of : Course.Of build script chains c
  grown : first.commands <+: c.commands
  aborted : c.flow.aborted = false → first.flow.aborted = false
  ending : ended.toList ++ ends effects = c.flow.result
  distinct : ((sentBy acts ++ commands effects).map (·.token)).Nodup
  own : ∀ m ∈ sentBy acts ++ commands effects,
    m ∈ c.commands ∧ first.flow.minted < m.token.number
  waits : ∀ t ∈ c.flow.outstanding,
    first.Leaves call t ∨ t ∈ (sentBy acts ++ commands effects).map (·.token)
  owed : c.flow.aborted = false → c.flow.ended = false → ∀ t,
    first.Leaves call t ∨ t ∈ (sentBy acts ++ commands effects).map (·.token) →
    t ∈ c.flow.outstanding

/-- What was left waiting was sent before. -/
theorem Course.Slotted.low {build : Build} {c : Course} {call : Call} {t : Token}
    (slotted : Course.Slotted build c) (left : c.Leaves call t) : t.number ≤ c.flow.minted := by
  rcases slotted.sent left.1 with ⟨m, mem, rfl⟩
  exact slotted.number_le mem

section Calls

variable {build : Build} {script : Option String} {chains : Chains} {c : Course} {call : Call}
  {t : Token}

theorem aborted_call {f : Flow} (live : (f.call call).1.aborted = false) : f.aborted = false := by
  cases call with
  | start now => exact (Flow.steady_drive f.takeOff none now).aborted.symm.trans live
  | process e now => exact (Flow.steady_process f e now).aborted.symm.trans live
  | abort now =>
      change (f.abort now).1.aborted = false at live
      unfold Flow.abort at live
      split at live
      · exact live
      · cases live

/-- What is waited on behind a call was waited on before and not answered, or is new. -/
theorem Course.Slotted.left (slotted : Course.Slotted build c)
    (waits : t ∈ (c.then_ call).flow.outstanding) :
    c.Leaves call t ∨
      t ∈ (BuildPipeline.commands (c.entry call).effects).map (·.token) := by
  rcases Flow.mem_outstanding_iff_slot.1 waits with ⟨slot, filled⟩
  rcases (Flow.fills_call c.flow call).slots slot t filled with ⟨before, -⟩ | ⟨m, mem, -, rfl, -⟩
  · refine .inl ⟨Flow.mem_outstanding_iff_slot.2 ⟨slot, before⟩, fun e taken => ?_⟩
    rintro rfl
    rcases Course.taken?_eq_some.1 taken with ⟨now, call_eq, accepted⟩
    change call = _ at call_eq
    subst call_eq
    exact (slotted.settles accepted now).2 waits
  · exact .inr (List.mem_map_of_mem mem)

/-- A call hands over what there is to settle. -/
theorem Handling.of_call (of : Course.Of build script chains (c.then_ call))
    (slotted : Course.Slotted build c) (grows : Course.Grows chains c call)
    (ending : ends (c.entry call).effects = (c.then_ call).flow.result)
    (lasts : c.flow.aborted = false → ∀ t, c.Leaves call t → t ∈ (c.then_ call).flow.outstanding) :
    Handling build script chains c call (c.then_ call) (c.entry call).effects [] none := by
  have fills := Flow.fills_call c.flow call
  have all := Course.commands_then_ c call
  refine ⟨slotted, of, all ▸ List.prefix_append _ _, aborted_call, ending, ?_, ?_,
    fun t waits => slotted.left waits, ?_⟩
  · have distinct := (slotted.then_ call).distinct
    rw [all, List.map_append] at distinct
    exact distinct.of_append_right
  · intro m mem
    refine ⟨all ▸ List.mem_append_right _ mem, ?_⟩
    have number : m.token.number ∈ (commands (c.entry call).effects).map (·.token.number) :=
      List.mem_map_of_mem mem
    rw [show (commands (c.entry call).effects).map (·.token.number) = _ from fills.tokens,
      List.mem_range'_1] at number
    omega
  · rintro live - t (left | new)
    · exact lasts (aborted_call live) t left
    · obtain ⟨m, mem, rfl⟩ := List.mem_map.1 new
      obtain ⟨sent, sends, rfl⟩ := List.mem_map.1 (show m ∈ commands _ from mem)
      exact grows.waits_of_posted (p := Course.Entry.posting _ sent) (List.mem_map_of_mem sends)

theorem Handling.of_legal (of : Course.Of build script chains c) (legal : call.Legal)
    (going : c.flow.ended = false) :
    Handling build script chains c call (c.then_ call) (c.entry call).effects [] none :=
  .of_call (of.step call legal) of.unchecked.slotted (of.grows legal) (of.ends_entry legal going)
    fun live _ left => of.waits_on legal live left.1 left.2

/-- A flow that is started waited on nothing before. -/
theorem Course.not_leaves_idle (now : Moment) (t : Token) :
    ¬(Course.idle build script chains).Leaves (.start now) t := by
  rintro ⟨waits, -⟩
  rcases Flow.mem_outstanding_iff_slot.1 waits with ⟨slot, filled⟩
  rw [Flow.slot?_of_empty rfl rfl] at filled
  cases filled

theorem Handling.of_start (now : Moment) :
    Handling build script chains (Course.idle build script chains) (.start now)
      ((Course.idle build script chains).then_ (.start now))
      ((Course.idle build script chains).entry (.start now)).effects [] none :=
  .of_call (.start now) Course.slotted_idle (Course.grows_start now) (Course.ends_start now)
    fun _ t left => (Course.not_leaves_idle now t left).elim

end Calls

section Handling

variable {desk : Desk} {build b : Build} {script : Option String} {chains : Chains}
  {first c : Course} {call : Call} {effects : List Effect} {acts : List Act}
  {ended : Option Build} {a : Address} {command : Command} {why : Undeliverable}

/-- All that matters is what goes out and how it ends. -/
theorem Handling.congr {effects' : List Effect} {acts' : List Act}
    (h : Handling build script chains first call c effects acts ended)
    (sent : sentBy acts' = sentBy acts) (left : commands effects' = commands effects)
    (over_ : ends effects' = ends effects) :
    Handling build script chains first call c effects' acts' ended := by
  refine ⟨h.slotted, h.of, h.grown, h.aborted, over_ ▸ h.ending, ?_, ?_, ?_, ?_⟩
  · rw [sent, left]
    exact h.distinct
  · rw [sent, left]
    exact h.own
  · rw [sent, left]
    exact h.waits
  · rw [sent, left]
    exact h.owed

theorem Handling.publish
    (h : Handling build script chains first call c (.publish b :: effects) acts ended) :
    Handling build script chains first call c effects (acts ++ [.published b]) ended :=
  h.congr (by simp) rfl rfl

theorem Handling.finish
    (h : Handling build script chains first call c (.finish b :: effects) acts ended) :
    Handling build script chains first call c effects acts (some b) :=
  ⟨h.slotted, h.of, h.grown, h.aborted, Flow.ending_finish h.ending, h.distinct, h.own, h.waits,
    h.owed⟩

theorem Handling.sent
    (h : Handling build script chains first call c (.dispatch a command :: effects) acts ended) :
    Handling build script chains first call c effects (acts ++ [.sent a command]) ended := by
  have same : sentBy (acts ++ [.sent a command]) ++ commands effects =
      sentBy acts ++ commands (.dispatch a command :: effects) := by simp
  exact ⟨h.slotted, h.of, h.grown, h.aborted, h.ending, same ▸ h.distinct, same ▸ h.own,
    same ▸ h.waits, same ▸ h.owed⟩

/-- The tokens of what went out and is to go out are those behind the first command, and its own. -/
theorem tokens_dispatch (acts : List Act) (a : Address) (command : Command)
    (effects : List Effect) :
    ((sentBy acts ++ commands (.dispatch a command :: effects)).map (·.token)).Perm
      (command.token :: (sentBy acts ++ commands effects).map (·.token)) := by
  rw [commands_dispatch]
  exact List.perm_middle.map _

theorem Handling.own_first
    (h : Handling build script chains first call c (.dispatch a command :: effects) acts ended) :
    command ∈ c.commands ∧ first.flow.minted < command.token.number :=
  h.own command (by simp)

theorem Handling.own_rest
    (h : Handling build script chains first call c (.dispatch a command :: effects) acts ended) :
    ∀ m ∈ sentBy acts ++ commands effects, m ∈ c.commands ∧ first.flow.minted < m.token.number := by
  intro m mem
  refine h.own m ?_
  rw [commands_dispatch]
  exact List.perm_middle.mem_iff.2 (List.mem_cons_of_mem _ mem)

/-- A command that is refused and waited on is answered at once, so it is waited on no more. -/
theorem Handling.refused (accepted : c.flow.accepts (command.refused why) = true) (now : Moment)
    (h : Handling build script chains first call c (.dispatch a command :: effects) acts ended) :
    Handling build script chains first call (c.then_ (.process (command.refused why) now))
      (effects ++ (c.flow.process (command.refused why) now).2) acts ended := by
  have legal : Call.Legal (.process (command.refused why) now) := command.proper_refused why
  have going := (Flow.accepts_inv accepted).1
  have slotted := h.of.unchecked.slotted
  have next := Handling.of_legal h.of legal going
  have taken : (c.entry (.process (command.refused why) now)).taken? =
      some (command.refused why) := Course.taken?_eq_some.2 ⟨now, rfl, accepted⟩
  have token : (command.refused why).token = command.token := rfl
  have ending := h.ending
  rw [ends_dispatch, Flow.result_of_going going, List.append_eq_nil_iff] at ending
  change Handling _ _ _ _ _ _
    (effects ++ (c.entry (.process (command.refused why) now)).effects) acts ended
  generalize (c.entry (.process (command.refused why) now)).effects = more at next
  -- the tokens that were to be waited on are those that are, and the one that is answered
  have before := tokens_dispatch acts a command effects
  obtain ⟨apart, distinct⟩ := List.nodup_cons.1 (before.nodup_iff.1 h.distinct)
  have old := h.own_rest
  have all : sentBy acts ++ commands (effects ++ more) =
      (sentBy acts ++ commands effects) ++ commands more := by simp
  have new : ∀ m ∈ commands more, m ∈ (c.then_ (.process (command.refused why) now)).commands ∧
      c.flow.minted < m.token.number := fun m mem => next.own m (List.mem_append_right _ mem)
  have below : first.flow.minted ≤ c.flow.minted :=
    Nat.le_trans (Nat.le_of_lt h.own_first.2) (slotted.number_le h.own_first.1)
  refine ⟨h.slotted, next.of, h.grown.trans next.grown,
    fun live => h.aborted (next.aborted live), ?_, ?_, ?_, ?_, ?_⟩
  · rw [ends_append, ending.1, ending.2]
    exact next.ending
  · rw [all, List.map_append, List.nodup_append']
    refine ⟨distinct, by simpa using next.distinct, fun t early late => ?_⟩
    obtain ⟨m, mem, rfl⟩ := List.mem_map.1 early
    obtain ⟨n, mem', same⟩ := List.mem_map.1 late
    have low := slotted.number_le (old m mem).1
    have high := (new n mem').2
    rw [same] at high
    omega
  · rw [all]
    intro m mem
    rcases List.mem_append.1 mem with early | late
    · rw [Course.commands_then_]
      exact ⟨List.mem_append_left _ (old m early).1, (old m early).2⟩
    · exact ⟨(new m late).1, Nat.lt_of_le_of_lt below (new m late).2⟩
  · intro t waits
    rw [all, List.map_append, List.mem_append]
    rcases next.waits t waits with ⟨waited, unanswered⟩ | fresh
    · have ne : t ≠ command.token := unanswered _ taken
      refine (h.waits t waited).imp id fun mem => .inl ?_
      exact (List.mem_cons.1 (before.mem_iff.1 mem)).resolve_left ne
    · exact .inr (.inr (by simpa using fresh))
  · intro live going' t wanted
    rw [all, List.map_append, List.mem_append] at wanted
    have ne : ∀ e, (c.entry (.process (command.refused why) now)).taken? = some e →
        t ≠ command.token → t ≠ e.token := by
      intro e taken' ne
      rw [taken] at taken'
      cases taken'
      exact ne
    have lasts : t ∈ c.flow.outstanding → t ≠ command.token → t ∈
        (c.then_ (.process (command.refused why) now)).flow.outstanding := fun waited apart =>
      next.owed live going' t (.inl ⟨waited, fun e taken' => ne e taken' apart⟩)
    have alive := aborted_call live
    rcases wanted with kept_ | early | late
    · refine lasts (h.owed alive going t (.inl kept_)) ?_
      rintro rfl
      have first := h.own_first.2
      have low := h.slotted.low kept_
      omega
    · refine lasts (h.owed alive going t (.inr ?_)) ?_
      · exact before.mem_iff.2 (List.mem_cons_of_mem _ early)
      · rintro rfl
        exact apart early
    · exact next.owed live going' t (.inr (by simpa using late))

/-- A command that is refused and not accepted as failed is not waited on. -/
theorem Handling.dropped (rejected : c.flow.accepts (command.refused why) = false)
    (h : Handling build script chains first call c (.dispatch a command :: effects) acts ended) :
    Handling build script chains first call c effects acts ended := by
  have before := tokens_dispatch acts a command effects
  have unwaited : command.token ∉ c.flow.outstanding := by
    intro waits
    obtain ⟨p, sent, rfl⟩ := List.mem_map.1 h.own_first.1
    rw [h.of.accepts sent waits (p.command.matches_refused why)] at rejected
    cases rejected
  refine ⟨h.slotted, h.of, h.grown, h.aborted, h.ending,
    (List.nodup_cons.1 (before.nodup_iff.1 h.distinct)).2, h.own_rest, ?_, ?_⟩
  · intro t waits
    refine (h.waits t waits).imp id fun mem => ?_
    refine (List.mem_cons.1 (before.mem_iff.1 mem)).resolve_left ?_
    rintro rfl
    exact unwaited waits
  · intro live going t wanted
    refine h.owed live going t (wanted.imp id fun mem => ?_)
    exact before.mem_iff.2 (List.mem_cons_of_mem _ mem)

/-- What settling comes to. -/
theorem Handling.settle (h : Handling build script chains first call c effects [] none)
    (desk : Desk) (s : Deadlines) :
    ∃ c', (desk.settle c.flow s effects).flow = c'.flow ∧
      Handling build script chains first call c' [] (desk.settle c.flow s effects).acts
        (desk.settle c.flow s effects).ended := by
  suffices settled : ∃ c', (desk.settle c.flow s effects).flow = c'.flow ∧
      Handling build script chains first call c' [] ([] ++ (desk.settle c.flow s effects).acts)
        ((desk.settle c.flow s effects).ended <|> none) by
    simpa using settled
  refine desk.settle_rule (fun f _ effects acts ended => ∃ c', f = c'.flow ∧
    Handling build script chains first call c' effects acts ended) ?_ ?_ ?_ ?_ ?_ []
    ⟨c, rfl, h⟩
  · rintro f s b rest acts ended ⟨c, rfl, h⟩
    exact ⟨c, rfl, h.publish⟩
  · rintro f s b rest acts ended ⟨c, rfl, h⟩
    exact ⟨c, rfl, h.finish⟩
  · rintro f s a command rest acts ended - ⟨c, rfl, h⟩
    exact ⟨c, rfl, h.sent⟩
  · rintro f s a command why rest acts ended - accepted ⟨c, rfl, h⟩
    exact ⟨_, rfl, h.refused accepted desk.now⟩
  · rintro f s a command why rest acts ended - rejected ⟨c, rfl, h⟩
    exact ⟨c, rfl, h.dropped rejected⟩

end Handling
end BuildPipeline
