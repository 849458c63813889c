import BuildPipeline.Proofs.Flow.Detached
import BuildPipeline.Proofs.Flow.Issuing

/-!
Updates do not interfere. Phase updates that are put in anywhere among the calls on a flow
(`Course.Padded`) change nothing of what the other calls come to, but for the containers of phases
(`Course.Padded.apart`). The two flows are carried through the calls as one flow without containers,
which an update leaves as it is and which every other call treats the same.

An update does one of two things: it comes in time for a phase of the running stage and is published
alone, or it changes nothing (`Course.Entry.Heeds`).
-/

namespace BuildPipeline

open Time (Moment)

namespace Course

/-- Two courses from one start on. The first has phase updates among its calls that the second has
not; the calls that both have are paired. -/
inductive Padded (build : Build) (script : Option String) (chains : Chains) :
    Course → Course → List (Entry × Option Entry) → Prop
  | start (now : Moment) :
      Padded build script chains ((idle build script chains).then_ (.start now))
        ((idle build script chains).then_ (.start now))
        [((idle build script chains).entry (.start now),
          some ((idle build script chains).entry (.start now)))]
  | both {c d : Course} {log : List (Entry × Option Entry)}
      (padded : Padded build script chains c d log) (call : Call) (later : call.Later) :
      Padded build script chains (c.then_ call) (d.then_ call)
        (log ++ [(c.entry call, some (d.entry call))])
  | extra {c d : Course} {log : List (Entry × Option Entry)}
      (padded : Padded build script chains c d log) (u : Event) (update : u.kind = .phaseUpdate)
      (now : Moment) :
      Padded build script chains (c.then_ (.process u now)) d
        (log ++ [(c.entry (.process u now), none)])

/-- Two calls come to the same, but for the containers of phases. -/
structure Entry.Alongside (n m : Entry) : Prop where
  call : n.call = m.call
  leg : n.after.leg? = m.after.leg?
  outstanding : n.after.outstanding = m.after.outstanding
  stages : n.after.stages.length = m.after.stages.length
  progress : ∀ i, n.after.progress? i = m.after.progress? i
  ended : n.after.ended = m.after.ended
  aborted : n.after.aborted = m.after.aborted
  build : n.after.build.detached = m.after.build.detached
  effects : n.effects.map (·.detached) = m.effects.map (·.detached)

/-- The update comes in time: it names a container for a phase of the running stage, with the token
of a command that went out for that phase. -/
def Entry.InTime (n : Entry) (sent : List Posting) (u : Event) : Prop :=
  n.before.leg? = some .run ∧ u.isSuccess = true ∧ ∃ patch, u.phase = some patch ∧
    patch.hasContainer = true ∧ Flow.Posted sent (n.begun - 1) patch.index u.token

/-- An update behind the given commands is published alone if it comes in time, and else changes
nothing. -/
def Entry.Heeds (n : Entry) (sent : List Posting) : Prop :=
  ∀ u now, n.call = .process u now → u.kind = .phaseUpdate →
    n.InTime sent u ∧ n.effects = [.publish n.after.build] ∨
      ¬n.InTime sent u ∧ n.effects = [] ∧ n.after = n.before

/-- Every update of the course is either published alone or changes nothing. -/
def Heeds (c : Course) : Prop :=
  ∀ past n future, c.entries = past ++ n :: future → n.Heeds (past.flatMap (·.postings))

/-- What two courses have in common that differ in updates. -/
structure Apart (c d : Course) (log : List (Entry × Option Entry)) : Prop where
  padded : c.entries = log.map (·.1)
  bare : d.entries = log.filterMap (·.2)
  both : ∀ n m, (n, some m) ∈ log → n.Alongside m
  extra : ∀ n, (n, none) ∈ log → ∃ u now, n.call = .process u now ∧ u.kind = .phaseUpdate
  heeds : c.Heeds ∧ d.Heeds

section Updates

variable {build : Build} {script : Option String} {chains : Chains} {c d : Course}
  {log : List (Entry × Option Entry)} {i : Nat}

/-! ## What an update does -/

/-- A flow on the run is not over. -/
theorem Unchecked.going_of_run (run : Unchecked build script chains c)
    (on : c.flow.leg? = some .run) : c.flow.ended = false := by
  obtain ⟨d, of, same⟩ := run.checked_of_run on
  obtain ⟨past, stage, -, -, on', -⟩ := of.rests.on_run (same.flow ▸ on)
  exact same.flow ▸ on'.going

/-- A token was issued only for a phase that there is. -/
theorem Unchecked.runningPosition_of_issued (run : Unchecked build script chains c)
    (on : c.flow.leg? = some .run) {t : Token} (issued : c.flow.issuedFor i t = true) :
    ∃ position, c.flow.runningPosition? i = some position := by
  obtain ⟨d, of, same⟩ := run.checked_of_run on
  rw [← same.flow] at on issued ⊢
  obtain ⟨past, stage, at_, -, on', inside, -⟩ := of.rests.on_run on
  obtain ⟨lane, lane_at, -⟩ := Flow.issuedFor_iff.1 issued
  have lt : i < stage.members.length := by
    rw [← inside.width]
    exact (List.getElem?_eq_some_iff.1 lane_at).1
  have member := List.getElem?_eq_getElem lt
  have within := on'.laid.lt_of_mem at_ (List.getElem_mem lt)
  refine ⟨stage.members[i], ?_⟩
  rw [Flow.runningPosition?, on'.stages_eq at_, List.head?_cons, Option.bind_some, Stage.position?,
    member, Option.filter_some, if_pos (by simpa using within)]

/-- An update with a token that was issued is taken over by the phase that it names. -/
theorem Unchecked.process_of_issued (run : Unchecked build script chains c)
    (on : c.flow.leg? = some .run) {u : Event} {patch : PhasePatch} (update : u.kind = .phaseUpdate)
    (success : u.isSuccess = true) (phase : u.phase = some patch)
    (container : patch.hasContainer = true)
    (issued : c.flow.issuedFor patch.index u.token = true) (now : Moment) :
    ∃ position, c.flow.runningPosition? patch.index = some position ∧
      c.flow.process u now = (c.flow.modifyPhase position (·.applyContainer patch),
        [(c.flow.modifyPhase position (·.applyContainer patch)).snapshot]) := by
  obtain ⟨position, place⟩ := run.runningPosition_of_issued on issued
  refine ⟨position, place, ?_⟩
  simp [Flow.process, Flow.updatePhase, run.going_of_run on, update, phase, success, container, on,
    issued, place]

/-- An update is published alone if it comes in time, and else changes nothing. -/
theorem Unchecked.entry_heeds (run : Unchecked build script chains c) (call : Call) :
    (c.entry call).Heeds c.postings := by
  rintro u now rfl update
  by_cases inTime : (c.entry (.process u now)).InTime c.postings u
  · refine .inl ⟨inTime, ?_⟩
    obtain ⟨on, success, patch, phase, container, posted⟩ := inTime
    have issued := (run.issued_iff on patch.index u.token).2 posted
    obtain ⟨position, -, taken⟩ :=
      run.process_of_issued on update success phase container issued now
    simp only [entry, Flow.call, taken, Flow.snapshot]
  · have unchanged : c.flow.process u now = (c.flow, []) := by
      unfold Flow.process
      rw [if_pos update, Flow.updatePhase]
      split
      · rfl
      · cases phase : u.phase with
        | none => rfl
        | some patch =>
            refine if_neg fun told => inTime ?_
            obtain ⟨success, container, on, issued⟩ := told
            exact ⟨on, success, patch, phase, container, (run.issued_iff on _ _).1 issued⟩
    exact .inr ⟨inTime, congrArg Prod.snd unchanged, congrArg Prod.fst unchanged⟩

theorem Unchecked.heeds (run : Unchecked build script chains c) : c.Heeds := by
  induction run with
  | start now =>
      intro past n future split u now' call
      obtain ⟨rfl, rfl, rfl⟩ | ⟨rest, -, shorter⟩ := split_concat split
      · cases call
      · simp [idle] at shorter
  | @step c run call later ih =>
      intro past n future split
      obtain ⟨rfl, rfl, rfl⟩ | ⟨rest, rfl, shorter⟩ := split_concat split
      · exact run.entry_heeds call
      · exact ih past n rest shorter

/-! ## What updates leave alone -/

/-- Whatever is done to two flows that are the same but for containers comes to the same. -/
theorem alongside_of_detached (same : c.flow.detached = d.flow.detached) (call : Call) :
    (c.entry call).Alongside (d.entry call) := by
  have outcome := Flow.detached_call same call
  have seen : ∀ {α : Type} (look : Flow → α),
      look (c.entry call).after.detached = look (d.entry call).after.detached :=
    fun look => congrArg (look ·.1) outcome
  exact ⟨rfl, seen Flow.leg?, seen Flow.outstanding, seen (·.stages.length),
    fun i => seen (·.progress? i), seen Flow.ended, seen Flow.aborted, seen Flow.build,
    congrArg Prod.snd outcome⟩

theorem Padded.unchecked (padded : Padded build script chains c d log) :
    Unchecked build script chains c ∧ Unchecked build script chains d := by
  induction padded with
  | start now => exact ⟨.start now, .start now⟩
  | both _ call later ih => exact ⟨ih.1.step call later, ih.2.step call later⟩
  | extra _ u update now ih => exact ⟨ih.1.step (.process u now) trivial, ih.2⟩

theorem Padded.detached (padded : Padded build script chains c d log) :
    c.flow.detached = d.flow.detached := by
  induction padded with
  | start => rfl
  | both _ call later ih => exact congrArg Prod.fst (Flow.detached_call ih call)
  | extra _ u update now ih => exact (Flow.detached_of_update _ update now).trans ih

/-- Phase updates that are put in anywhere do not interfere. -/
theorem Padded.apart (padded : Padded build script chains c d log) : Apart c d log := by
  -- what updates do is told of each course alone; only what the courses share is by induction
  have heeds : c.Heeds ∧ d.Heeds := padded.unchecked.imp Unchecked.heeds Unchecked.heeds
  induction padded with
  | start now =>
      refine ⟨rfl, rfl, fun n m mem => ?_, fun n mem => ?_, heeds⟩
      · obtain ⟨rfl, rfl⟩ : _ ∧ _ := by simpa using mem
        exact alongside_of_detached rfl (.start now)
      · simp at mem
  | @both c d log padded call later ih =>
      obtain ⟨entries, entries', both, extra, -⟩ :=
        ih (padded.unchecked.imp Unchecked.heeds Unchecked.heeds)
      refine ⟨by simp [then_, entries], by simp [then_, entries'], fun n m mem => ?_,
        fun n mem => ?_, heeds⟩
      · rcases List.mem_append.1 mem with old | new
        · exact both n m old
        · obtain ⟨rfl, rfl⟩ : _ ∧ _ := by simpa using new
          exact alongside_of_detached padded.detached call
      · exact extra n (by simpa using mem)
  | @extra c d log padded u update now ih =>
      obtain ⟨entries, entries', both, extra, -⟩ :=
        ih (padded.unchecked.imp Unchecked.heeds Unchecked.heeds)
      refine ⟨by simp [then_, entries], by simp [entries'], fun n m mem => ?_,
        fun n mem => ?_, heeds⟩
      · exact both n m (by simpa using mem)
      · rcases List.mem_append.1 mem with old | new
        · exact extra n old
        · obtain rfl : n = _ := by simpa using new
          exact ⟨u, now, rfl, update⟩

/-- The update with a token, which names a container. -/
def reported (token : Token) : Event :=
  { kind := .phaseUpdate, buildId := ⟨"b"⟩, token, phase := some ⟨0, some "c", none, none⟩ }

/-- An update in time and one that is late, with a failure between them. -/
theorem apart_underWay :
    let c := underWay.then_ (.process (reported ⟨2⟩) Moment.origin)
      |>.then_ (failure .phaseEnd ⟨2⟩) |>.then_ (.process (reported ⟨2⟩) Moment.origin)
    ∃ log, Padded { id := ⟨"b"⟩, createdAt := Moment.origin } none
        { shortChains with tearDown := [⟨.tearDown, 0, 0⟩] } c
        (underWay.then_ (failure .phaseEnd ⟨2⟩)) log ∧
      c.entries.map (·.effects.length) = [1, 3, 1, 3, 0] ∧
      Apart c (underWay.then_ (failure .phaseEnd ⟨2⟩)) log := by
  have ready : Padded { id := ⟨"b"⟩, createdAt := Moment.origin } none
      { shortChains with tearDown := [⟨.tearDown, 0, 0⟩] } underWay underWay _ :=
    .both (.start Moment.origin)
      (.process
        { kind := .setupEnd, buildId := ⟨"b"⟩, token := ⟨1⟩, stages := some [[{ id := "p" }]] }
        Moment.origin)
      trivial
  have padded := ((ready.extra (reported ⟨2⟩) rfl Moment.origin).both (failure .phaseEnd ⟨2⟩)
    trivial).extra (reported ⟨2⟩) rfl Moment.origin
  exact ⟨_, padded, by cbv, Padded.apart padded⟩

end Updates

end Course
end BuildPipeline
