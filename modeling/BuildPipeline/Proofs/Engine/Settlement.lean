import BuildPipeline.Engine.Basic
import BuildPipeline.Proofs.Engine.Handling
import BuildPipeline.Proofs.Engine.Tending
import BuildPipeline.Proofs.Flow.Owned

/-!
What comes of a call on one flow when the engine settles it. An engine is orderly
(`Engine.Orderly`) if every active flow is a running flow of the build that it is filed under, and
every deadline that is set is made out to a command of such a flow. Settling keeps an engine orderly
(`Engine.Orderly.settle`). It touches nothing but the flow and the deadlines of one build
(`Engine.Confined`), and that flow either stays, with a deadline more for every command that went
out, or has ended and is gone with all its deadlines (`Engine.Settlement`).
-/

namespace BuildPipeline

open Time (Moment Span)

/-! ## Acts -/

/-- The build that an act is about, where it tells. -/
def Act.build? : Act → Option Build
  | .sent _ command => some command.build
  | .published build => some build
  | .ended build => some build
  | .killed _ | .deleted _ => none

/-- An act is about the build of an id. -/
def Act.About (id : BuildId) (a : Act) : Prop :=
  ∃ b, a.build? = some b ∧ b.id = id

/-- An act is about no build but that of an id. -/
def Act.Within (id : BuildId) (a : Act) : Prop :=
  ∀ b, a.build? = some b → b.id = id

theorem Act.About.within {id : BuildId} {a : Act} (about : a.About id) : a.Within id := by
  obtain ⟨b, told, own⟩ := about
  intro b' told'
  obtain rfl := Option.some.inj (told.symm.trans told')
  exact own

theorem Act.within_of_silent {id : BuildId} {a : Act} (silent : a.build? = none) :
    a.Within id := fun _ told => by cases silent.symm.trans told

theorem Act.Within.sent {id : BuildId} {acts : List Act} (within : ∀ a ∈ acts, a.Within id)
    {m : Command} (sent : m ∈ sentBy acts) : m.build.id = id := by
  obtain ⟨⟨address, command⟩, mem, rfl⟩ := List.mem_map.1 sent
  obtain ⟨a, done, told⟩ := List.mem_filterMap.1 mem
  rw [Act.eq_sent told] at done
  exact within _ done _ rfl

section Desk

variable {desk : Desk} {f : Flow} {effects : List Effect} {id : BuildId}

/-- A flow that settles, what is left to settle and what was done are about the build of an id. -/
structure Minds (id : BuildId) (f : Flow) (effects : List Effect) (acts : List Act)
    (ended : Option Build) : Prop where
  flow : f.build.id = id
  effects : ∀ x ∈ effects, x.build.id = id
  acts : ∀ a ∈ acts, a.About id
  ended : ∀ b, ended = some b → b.id = id

theorem Minds.of_owns {g : Flow} (owns : g.Owns effects f) (own : g.build.id = id) :
    Minds id f effects [] none :=
  ⟨owns.id.trans own, fun x mem => (owns.own x mem).trans own,
    fun _ none_ => absurd none_ List.not_mem_nil, fun _ none_ => by cases none_⟩

/-- Settling the flow of a build does nothing but for this build. -/
theorem Minds.settle (h : Minds id f effects [] none) (desk : Desk) (s : Deadlines) :
    Minds id (desk.settle f s effects).flow [] (desk.settle f s effects).acts
      (desk.settle f s effects).ended := by
  suffices settled : Minds id (desk.settle f s effects).flow []
      ([] ++ (desk.settle f s effects).acts) ((desk.settle f s effects).ended <|> none) by
    simpa using settled
  refine desk.settle_rule (fun f _ effects acts ended => Minds id f effects acts ended)
    ?_ ?_ ?_ ?_ ?_ [] h
  · intro f s b rest acts ended h
    obtain ⟨own, left⟩ := List.forall_mem_cons.1 h.effects
    refine ⟨h.flow, left, List.forall_mem_append.2 ⟨h.acts, ?_⟩, h.ended⟩
    exact List.forall_mem_singleton.2 ⟨_, rfl, own⟩
  · intro f s b rest acts ended h
    obtain ⟨own, left⟩ := List.forall_mem_cons.1 h.effects
    exact ⟨h.flow, left, h.acts, fun _ told => Option.some.inj told ▸ own⟩
  · intro f s a command rest acts ended _ h
    obtain ⟨own, left⟩ := List.forall_mem_cons.1 h.effects
    refine ⟨h.flow, left, List.forall_mem_append.2 ⟨h.acts, ?_⟩, h.ended⟩
    exact List.forall_mem_singleton.2 ⟨_, rfl, own⟩
  · intro f s a command why rest acts ended _ _ h
    obtain ⟨-, left⟩ := List.forall_mem_cons.1 h.effects
    have owns := Flow.owns_process f (command.refused why) desk.now
    exact ⟨owns.id.trans h.flow, List.forall_mem_append.2
      ⟨left, fun x mem => (owns.own x mem).trans h.flow⟩, h.acts, h.ended⟩
  · intro f s a command why rest acts ended _ _ h
    exact ⟨h.flow, (List.forall_mem_cons.1 h.effects).2, h.acts, h.ended⟩

end Desk

section Handling

variable {build : Build} {script : Option String} {chains : Chains} {first c : Course} {call : Call}
  {acts : List Act} {ended : Option Build} {s : Deadlines} {d : Deadline}

/-- The deadlines of what went out are made out to commands of the flow. -/
theorem Handling.deadline_for (h : Handling build script chains first call c [] acts ended)
    {desk : Desk} (mem : d ∈ desk.deadlines (sentBy acts)) :
    d.buildId = build.id ∧ ∃ m ∈ c.commands, d.For m ∧ first.flow.minted < m.token.number := by
  obtain ⟨m, sent, timeout, -, rfl⟩ := Desk.key_of_mem_deadlines mem
  obtain ⟨known, new⟩ := h.own m (List.mem_append_left _ sent)
  exact ⟨(h.of.unchecked.slotted.made m known).1, m, known, desk.deadline_for timeout m, new⟩

/-- The deadlines of what went out are new. -/
theorem Handling.armed (h : Handling build script chains first call c [] acts ended) (desk : Desk)
    (sound : s.Sound)
    (made : ∀ d ∈ s.items.toList, d.buildId = build.id → ∃ m ∈ first.commands, d.For m) :
    (s.scheduleAll (desk.deadlines (sentBy acts))).Sound ∧
      (s.scheduleAll (desk.deadlines (sentBy acts))).live.Perm
        (desk.deadlines (sentBy acts) ++ s.live) := by
  refine sound.scheduleAll ?_ fun d mem old => ?_
  · have distinct := h.distinct
    rw [commands_nil, List.append_nil] at distinct
    unfold Desk.deadlines
    split
    · rename_i timeout _
      have tokens : (((sentBy acts).map (desk.deadline timeout)).map (·.key)).map (·.2) =
          (sentBy acts).map (·.token) := by
        simp [Deadline.key, Desk.deadline]
      exact (tokens ▸ distinct).of_map
    · exact List.nodup_nil
  · obtain ⟨own, m, -, for_, new⟩ := h.deadline_for mem
    obtain ⟨d', set_, key⟩ := List.mem_map.1 old
    obtain ⟨own', token⟩ := Prod.mk.inj key
    obtain ⟨m', known, for_'⟩ := made d' set_ (own'.trans own)
    have low := h.slotted.number_le known
    rw [← for_'.token, token, for_.token] at low
    omega

end Handling

/-! ## The engine -/

/-- A flow is one of the build of an id, and the deadlines of the id are made out to its
commands. -/
def Flow.Filed (id : BuildId) (chains : Chains) (set_ : List Deadline) (f : Flow) : Prop :=
  ∃ build script c, build.id = id ∧ f = c.flow ∧ Course.Of build script chains c ∧
    ∀ d ∈ set_, d.buildId = id → ∃ m ∈ c.commands, d.For m

theorem Flow.Filed.mono {id : BuildId} {chains : Chains} {set_ set' : List Deadline} {f : Flow}
    (filed : f.Filed id chains set_) (less : ∀ d ∈ set', d.buildId = id → d ∈ set_) :
    f.Filed id chains set' := by
  obtain ⟨build, script, c, own, same, of, made⟩ := filed
  exact ⟨build, script, c, own, same, of, fun d mem mine => made d (less d mem mine) mine⟩

namespace Engine

/-- The live deadlines of a build. -/
def live (e : Engine) (id : BuildId) : List Deadline :=
  e.deadlines.live.filter (·.buildId = id)

/-- The deadlines that are set, cancelled or not. -/
def set_ (e : Engine) : List Deadline :=
  e.deadlines.items.toList

/-- Every flow is one of the build that it is filed under, and every deadline is one of a flow that
is there. `due` has deadlines that are no longer set and have not had their turn yet. -/
structure Filed (due : List Deadline) (e : Engine) : Prop where
  sound : e.deadlines.Sound
  flows : ∀ id f, e.flows.get? id = some f → f.Filed id e.chains (e.set_ ++ due)
  owners : ∀ d ∈ e.set_, e.flows.get? d.buildId ≠ none

/-- The flows and the deadlines are filed, and no flow that is there has ended. -/
structure Orderly (due : List Deadline) (e : Engine) : Prop extends Filed due e where
  going : ∀ id f, e.flows.get? id = some f → f.ended = false

/-- What happens touches no build but that of an id. -/
structure Confined (id : BuildId) (e e' : Engine) (acts : List Act) : Prop where
  frame : e' = { e with flows := e'.flows, deadlines := e'.deadlines }
  flows : ∀ other ≠ id, e'.flows.get? other = e.flows.get? other
  live : ∀ other ≠ id, (e'.live other).Perm (e.live other)
  within : ∀ a ∈ acts, a.Within id

/-- The engine with a flow put in its place and the deadlines of what it sent set. -/
def keep (e : Engine) (id : BuildId) (f : Flow) (acts : List Act) : Engine :=
  { e with
    flows := e.flows.put id f
    deadlines := e.deadlines.scheduleAll (e.desk.deadlines (sentBy acts)) }

/-- The engine without the flow of a build and without its deadlines. -/
def drop (e : Engine) (id : BuildId) : Engine :=
  { e with flows := e.flows.erase id, deadlines := e.deadlines.cancelBuild id }

/-- What becomes of a flow that has settled under an id. It stays, and beside the deadlines that
were left to it there are those that were armed meanwhile; or it has ended and is gone with its
deadlines. -/
def SettledFlow (id : BuildId) (f : Flow) (armed left : List Deadline) (e' : Engine) : Prop :=
  f.ended = false ∧ e'.flows.get? id = some f ∧ (e'.live id).Perm (armed ++ left) ∨
    f.ended = true ∧ e'.flows.get? id = none ∧ e'.live id = []

/-- What a call on the flow of a build comes to. `first` is the flow that was called, `c` what it
has come to, and `left` the deadlines that were left to it. -/
structure Settlement (build : Build) (script : Option String) (chains : Chains) (first : Course)
    (call : Call) (desk : Desk) (left : List Deadline) (c : Course) (e' : Engine)
    (acts : List Act) : Prop where
  handled : ∃ ended, Handling build script chains first call c [] acts ended
  flow : SettledFlow build.id c.flow (desk.deadlines (sentBy acts)) left e'

section Settle

variable {e e' e'' : Engine} {due : List Deadline} {id : BuildId} {acts more : List Act} {f : Flow}
  {effects : List Effect} {build : Build} {script : Option String} {chains : Chains}
  {first c : Course} {call : Call} {ended : Option Build}

theorem Confined.refl (silent : ∀ a ∈ acts, a.Within id) : Confined id e e acts :=
  ⟨rfl, fun _ _ => rfl, fun _ _ => .refl _, silent⟩

theorem Confined.trans (one : Confined id e e' acts) (two : Confined id e' e'' more) :
    Confined id e e'' (acts ++ more) := by
  refine ⟨?_, fun other ne => (two.flows other ne).trans (one.flows other ne),
    fun other ne => (two.live other ne).trans (one.live other ne),
    List.forall_mem_append.2 ⟨one.within, two.within⟩⟩
  rw [two.frame, one.frame]

/-- What settling does to an engine. -/
theorem settle_eq (minds : Minds id f effects [] none) (e : Engine) :
    e.settle id f effects =
      match (e.desk.settle f {} effects).ended with
      | none =>
        (e.keep id (e.desk.settle f {} effects).flow (e.desk.settle f {} effects).acts,
          (e.desk.settle f {} effects).acts)
      | some b =>
        ((e.keep id (e.desk.settle f {} effects).flow (e.desk.settle f {} effects).acts).drop id,
          (e.desk.settle f {} effects).acts ++ [.ended b]) := by
  have own := (minds.settle e.desk {}).ended
  unfold settle
  rw [e.desk.settle_eq f e.deadlines {} effects]
  generalize e.desk.settle f {} effects = s at own
  dsimp only
  cases finished : s.ended with
  | none => rfl
  | some b =>
      have there : (e.flows.put id s.flow).contains id = true := by
        rw [FlowTable.contains, FlowTable.get?_put]
        rfl
      simp only [onFlowEnd, own b finished, there, if_true]
      rfl

/-- What is done when a flow settles. -/
theorem acts_settle (minds : Minds id f effects [] none) (e : Engine) :
    (e.settle id f effects).2 = (e.desk.settle f {} effects).acts ++
      ((e.desk.settle f {} effects).ended.map Act.ended).toList := by
  rw [settle_eq minds]
  cases (e.desk.settle f {} effects).ended with
  | none => simp
  | some b => rfl

/-- The live deadlines of a build when some of it were added. -/
theorem filter_append_of_own {more old all : List Deadline} (own : ∀ d ∈ more, d.buildId = id)
    (live : all.Perm (more ++ old)) :
    (all.filter (·.buildId = id)).Perm (more ++ old.filter (·.buildId = id)) ∧
      ∀ other ≠ id, (all.filter (·.buildId = other)).Perm (old.filter (·.buildId = other)) := by
  have kept : more.filter (·.buildId = id) = more :=
    List.filter_eq_self.2 fun d mem => decide_eq_true (own d mem)
  have mine := live.filter (·.buildId = id)
  rw [List.filter_append, kept] at mine
  refine ⟨mine, fun other ne => ?_⟩
  have none_ : more.filter (·.buildId = other) = [] :=
    List.filter_eq_nil_iff.2 fun d mem => by simpa [own d mem] using Ne.symm ne
  have others := live.filter (·.buildId = other)
  rwa [List.filter_append, none_, List.nil_append] at others

/-- A flow that has settled is filed. -/
theorem Filed.keep (filed : e.Filed due)
    (h : Handling build script e.chains first call c [] acts ended)
    (within : ∀ a ∈ acts, a.Within build.id)
    (made : ∀ d ∈ e.set_ ++ due, d.buildId = build.id → ∃ m ∈ first.commands, d.For m) :
    (e.keep build.id c.flow acts).Filed due ∧
      Confined build.id e (e.keep build.id c.flow acts) acts ∧
      ((e.keep build.id c.flow acts).live build.id).Perm
        (e.desk.deadlines (sentBy acts) ++ e.live build.id) := by
  have for_ := fun d (mem : d ∈ e.desk.deadlines (sentBy acts)) => h.deadline_for mem
  obtain ⟨sound, live⟩ := h.armed e.desk filed.sound
    fun d mem => made d (List.mem_append_left _ mem)
  obtain ⟨mine, others⟩ := filter_append_of_own (fun d mem => (for_ d mem).1) live
  have origin : ∀ d ∈ (e.keep build.id c.flow acts).set_,
      d ∈ e.desk.deadlines (sentBy acts) ∨ d ∈ e.set_ := fun d mem =>
    List.mem_append.1 ((e.deadlines.items_scheduleAll _).mem_iff.1 mem)
  refine ⟨⟨sound, fun id f at_ => ?_, fun d mem => ?_⟩,
    ⟨rfl, fun _ ne => FlowTable.get?_put_of_ne _ _ _ ne, others, within⟩, mine⟩
  · have origin' : ∀ d ∈ (e.keep build.id c.flow acts).set_ ++ due,
        d ∈ e.desk.deadlines (sentBy acts) ∨ d ∈ e.set_ ++ due := by
      intro d mem
      rcases List.mem_append.1 mem with set_ | now_
      · exact (origin d set_).imp_right (List.mem_append_left _)
      · exact .inr (List.mem_append_right _ now_)
    by_cases own : id = build.id
    · subst own
      rw [Engine.keep, FlowTable.get?_put] at at_
      cases at_
      refine ⟨build, script, c, rfl, rfl, h.of, fun d mem mine => ?_⟩
      rcases origin' d mem with armed | old
      · obtain ⟨-, m, known, for_, -⟩ := for_ d armed
        exact ⟨m, known, for_⟩
      · obtain ⟨m, known, for_⟩ := made d old mine
        exact ⟨m, h.grown.subset known, for_⟩
    · rw [Engine.keep, FlowTable.get?_put_of_ne _ _ _ own] at at_
      refine (filed.flows id f at_).mono fun d mem mine => ?_
      refine (origin' d mem).resolve_left fun armed => own ?_
      exact mine.symm.trans (for_ d armed).1
  · by_cases own : d.buildId = build.id
    · rw [own, Engine.keep, FlowTable.get?_put]
      exact Option.some_ne_none _
    · rw [Engine.keep, FlowTable.get?_put_of_ne _ _ _ own]
      exact filed.owners d ((origin d mem).resolve_left fun armed => own (for_ d armed).1)

/-- A deadline is of a command that its flow has sent. -/
theorem Filed.low (filed : e.Filed due) {d : Deadline} (mem : d ∈ e.set_ ++ due)
    (at_ : e.flows.get? d.buildId = some f) : d.token.number ≤ f.minted := by
  obtain ⟨build, script, c, own, rfl, of, made⟩ := filed.flows _ f at_
  obtain ⟨m, sent, for_⟩ := made d mem rfl
  rw [for_.token]
  exact of.unchecked.slotted.number_le sent

/-- Nothing is left of a build that is dropped. -/
theorem Filed.drop (filed : e.Filed due) (id : BuildId) :
    (e.drop id).Filed due ∧ Confined id e (e.drop id) [] ∧
      (e.drop id).flows.get? id = none ∧ (e.drop id).live id = [] := by
  obtain ⟨sound, live⟩ := filed.sound.cancelBuild id
  refine ⟨⟨sound, fun other f at_ => ?_, fun d mem => ?_⟩,
    ⟨rfl, fun _ ne => FlowTable.get?_erase_of_ne _ _ ne, fun other ne => ?_,
      List.forall_mem_nil _⟩,
    FlowTable.get?_erase _ _, ?_⟩
  · by_cases own : other = id
    · rw [own, Engine.drop, FlowTable.get?_erase] at at_
      cases at_
    · rw [Engine.drop, FlowTable.get?_erase_of_ne _ _ own] at at_
      refine (filed.flows other f at_).mono fun d mem _ => ?_
      rcases List.mem_append.1 mem with set_ | now_
      · exact List.mem_append_left _ (Deadlines.mem_items_cancelBuild.1 set_).1
      · exact List.mem_append_right _ now_
  · obtain ⟨old, ne⟩ := Deadlines.mem_items_cancelBuild.1 mem
    rw [Engine.drop, FlowTable.get?_erase_of_ne _ _ ne]
    exact filed.owners d old
  · refine (live.filter _).trans (.of_eq ?_)
    rw [List.filter_filter]
    refine List.filter_congr fun d _ => ?_
    by_cases own : d.buildId = other <;> simp [own, ne]
  · refine List.eq_nil_iff_forall_not_mem.2 fun d mem => ?_
    obtain ⟨mem, own⟩ := List.mem_filter.1 mem
    have other := (List.mem_filter.1 (live.mem_iff.1 mem)).2
    simp only [decide_eq_true_eq] at own other
    exact other own

/-- What a flow that has settled waits on was left waiting, or went out meanwhile and is new. -/
theorem Settlement.waits {desk : Desk} {left : List Deadline} {t : Token}
    (h : Settlement build script chains first call desk left c e' acts)
    (there : e'.flows.get? build.id = some f) (waits : t ∈ f.outstanding) :
    first.Leaves call t ∨ first.flow.minted < t.number ∧ ∃ m ∈ sentBy acts, m.token = t := by
  obtain ⟨⟨ended, h⟩, ⟨-, at_, -⟩ | ⟨-, gone, -⟩⟩ := h
  · cases at_.symm.trans there
    have new := h.waits t waits
    rw [commands_nil, List.append_nil] at new
    refine new.imp_right fun mem => ?_
    obtain ⟨m, sent, rfl⟩ := List.mem_map.1 mem
    exact ⟨(h.own m (List.mem_append_left _ sent)).2, m, sent, rfl⟩
  · cases gone.symm.trans there

/-- Settling the flow of a build keeps the engine orderly and touches no other build. -/
theorem Orderly.settle (orderly : e.Orderly due)
    (h : Handling build script e.chains first call c effects [] none)
    (minds : Minds build.id c.flow effects [] none)
    (made : ∀ d ∈ e.set_ ++ due, d.buildId = build.id → ∃ m ∈ first.commands, d.For m) :
    (e.settle build.id c.flow effects).1.Orderly due ∧
      Confined build.id e (e.settle build.id c.flow effects).1
        (e.settle build.id c.flow effects).2 ∧
      ∃ c', c'.flow = (e.desk.settle c.flow {} effects).flow ∧
        Settlement build script e.chains first call e.desk (e.live build.id) c'
          (e.settle build.id c.flow effects).1 (e.settle build.id c.flow effects).2 := by
  have mindful := minds.settle e.desk {}
  obtain ⟨c', same, after⟩ := h.settle e.desk {}
  rw [settle_eq minds]
  generalize e.desk.settle c.flow {} effects = s at same after mindful
  have ending := after.ending
  rw [ends_nil, List.append_nil] at ending
  obtain ⟨filed, confined, live⟩ :=
    orderly.toFiled.keep after (fun a mem => (mindful.acts a mem).within) made
  rw [← same] at filed confined live
  have others : ∀ id ≠ build.id, ∀ f,
      (e.keep build.id s.flow s.acts).flows.get? id = some f → f.ended = false :=
    fun id ne f at_ => orderly.going id f ((confined.flows id ne).symm.trans at_)
  cases finished : s.ended with
  | none =>
      rw [finished] at ending after
      have going := Flow.going_of_result ending.symm
      have there := FlowTable.get?_put e.flows build.id s.flow
      refine ⟨⟨filed, fun id f at_ => ?_⟩, confined, c', same.symm, ⟨none, after⟩,
        .inl ⟨going, same ▸ there, live⟩⟩
      by_cases own : id = build.id
      · subst own
        cases there.symm.trans at_
        exact same ▸ going
      · exact others id own f at_
  | some b =>
      rw [finished] at ending after
      obtain ⟨over_, -⟩ := Flow.ended_of_result ending.symm
      obtain ⟨filed', confined', gone, none_⟩ := filed.drop build.id
      have about : Act.About build.id (.ended b) := ⟨b, rfl, mindful.ended b finished⟩
      refine ⟨⟨filed', fun id f at_ => ?_⟩, ?_, c', same.symm, ⟨some b, ?_⟩,
        .inr ⟨over_, gone, none_⟩⟩
      · by_cases own : id = build.id
        · rw [own, gone] at at_
          cases at_
        · exact others id own f ((confined'.flows id own).symm.trans at_)
      · exact confined.trans ⟨confined'.frame, confined'.flows, confined'.live,
          List.forall_mem_singleton.2 about.within⟩
      · exact after.congr (by simp) rfl rfl

end Settle
end Engine
end BuildPipeline
