import BuildPipeline.Proofs.Flow.Calls

/-!
The lines of a course. A line is ahead of the flow, or the flow is on it, or it is behind the flow
(`Flow.place`); while the flow is on a line, so many commands were sent on it, and perhaps a token
is waited on. `Walk` has all that one call can do to one line, with the commands that the call sends
on it, and `Flow.Called.walk` says that every call walks so on every line.
-/

namespace BuildPipeline

open Time (Moment)

/-- Where a flow is with regard to a line. -/
inductive Place where
  | ahead
  | on (sent : Nat) (awaited : Option Token)
  | behind
  deriving DecidableEq

/-- Nothing more goes out on the line. -/
def Place.Closed : Place → Prop
  | .on _ none | .behind => True
  | .on _ (some _) | .ahead => False

/-- The leg that goes along the chain of a capability. -/
def Capability.leg : Capability → Leg
  | .setup => .setup
  | .runPhase => .run
  | .tearDown => .tearDown

theorem Capability.leg_eq_iff {k : Capability} {leg : Leg} : k.leg = leg ↔ leg.capability = k := by
  cases k <;> cases leg <;> decide

namespace Flow

/-- The place of a line of a leg that commands one provider at a time, while the flow is on the
leg. -/
def stepPlace (f : Flow) (l : Line) : Place :=
  if l = { capability := l.capability } then
    if f.dispatched = 0 then .ahead else .on f.dispatched f.pendingStep
  else .behind

/-- The place of a line of the run, while the flow is on the run and `begun` stages were started. -/
def lanePlace (f : Flow) (begun : Nat) (l : Line) : Place :=
  if begun ≤ l.stage then .ahead
  else if begun = l.stage + 1 then
    match f.lanes[l.index]? with
    | some lane => .on lane.sent lane.awaited
    | none => .behind
  else .behind

/-- The place of a line when `begun` stages were started. -/
def place (f : Flow) (begun : Nat) (l : Line) : Place :=
  if l.capability.leg ∈ f.legs.tail then .ahead
  else if f.leg? = some l.capability.leg then
    if l.capability = .runPhase then f.lanePlace begun l else f.stepPlace l
  else .behind

end Flow

/-- The call hands over an event that the flow accepts and that answers the command with a token on
a line. -/
def Course.Entry.AnswersOn (n : Course.Entry) (l : Line) (token : Token) : Prop :=
  ∃ e now, n.call = .process e now ∧ n.before.accepts e = true ∧
    e.kind = l.capability.completion ∧ e.token = token ∧
    (l.capability = .runPhase → ∃ patch, e.phase = some patch ∧ patch.index = l.index)

/-- What a call may do to a line along a chain: the place of the line before the call, the commands
that go out on it, and its place behind the call. -/
inductive Walk (chain : List Address) (n : Course.Entry) (l : Line) :
    Place → List Posting → Place → Prop
  | stay (p : Place) (unanswered : ∀ sent t, p = .on sent (some t) → ¬n.AnswersOn l t) :
      Walk chain n l p [] p
  | leave (p : Place) : Walk chain n l p [] .behind
  | first (q : Posting) (head : chain[0]? = some q.address)
      (opens : l.capability = .runPhase →
        n.begun ≤ l.stage ∧ l.stage < n.begun + n.started.length) :
      Walk chain n l .ahead [q] (.on 1 (some q.command.token))
  | close (sent : Nat) (t : Token) (answers : n.AnswersOn l t) :
      Walk chain n l (.on sent (some t)) [] (.on sent none)
  | next (sent : Nat) (t : Token) (q : Posting) (answers : n.AnswersOn l t)
      (may : n.Succeeds ∨ l.capability = .tearDown ∧ n.before.aborted = true)
      (next : chain[sent]? = some q.address) :
      Walk chain n l (.on sent (some t)) [q] (.on (sent + 1) (some q.command.token))

namespace Flow

section Place

variable {f g : Flow} {begun : Nat} {l : Line}

theorem place_of_later (later : l.capability.leg ∈ f.legs.tail) : f.place begun l = .ahead := by
  unfold place
  rw [if_pos later]

theorem place_of_over (legs : f.legs = []) : f.place begun l = .behind := by
  simp [place, legs, leg?]

/-- A line of a leg that was left. -/
theorem place_of_left (left : l.capability.leg ∉ f.legs) : f.place begun l = .behind := by
  unfold place
  rw [if_neg fun mem => left (List.mem_of_mem_tail mem), if_neg fun on => left ?_]
  exact List.mem_of_mem_head? on

/-- A line of the leg that the flow is on, if no leg comes twice. -/
theorem place_of_leg {leg : Leg} {rest : List Leg} (legs : f.legs = leg :: rest)
    (once : leg ∉ rest) (on : l.capability.leg = leg) :
    f.place begun l = if leg = .run then f.lanePlace begun l else f.stepPlace l := by
  have run : l.capability = .runPhase ↔ leg = .run := by
    rw [← on]
    cases l.capability <;> decide
  have later : l.capability.leg ∉ f.legs.tail := by rwa [legs, on]
  unfold place
  rw [if_neg later, if_pos (by simp [leg?, legs, on])]
  simp only [run]

/-- The place of a line is read off these parts of the flow. -/
theorem place_congr (legs : g.legs = f.legs) (count : g.dispatched = f.dispatched)
    (step : g.pendingStep = f.pendingStep) (lanes : g.lanes = f.lanes) :
    g.place begun l = f.place begun l := by
  unfold place stepPlace lanePlace leg?
  rw [legs, count, step, lanes]

theorem lanePlace_of_lane {lane : Lane} (started : begun = l.stage + 1)
    (lane_at : f.lanes[l.index]? = some lane) :
    f.lanePlace begun l = .on lane.sent lane.awaited := by
  unfold lanePlace
  rw [if_neg (by omega), if_pos started, lane_at]

/-- A line of a stage that was started before the running one is behind. -/
theorem lanePlace_of_past (past : l.stage + 1 < begun) : f.lanePlace begun l = .behind := by
  unfold lanePlace
  rw [if_neg (by omega), if_neg (by omega)]

theorem lanePlace_of_future (future : begun ≤ l.stage) : f.lanePlace begun l = .ahead := by
  unfold lanePlace
  rw [if_pos future]

/-- The line on which the flow is while it is on a leg that commands one provider at a time. -/
theorem place_of_step {leg : Leg} {rest : List Leg} (legs : f.legs = leg :: rest)
    (once : leg ∉ rest) (ne : leg ≠ .run) (sent : 0 < f.dispatched) :
    f.place begun l =
      if l.capability.leg ∈ rest then .ahead
      else if l = { capability := leg.capability } then .on f.dispatched f.pendingStep
      else .behind := by
  by_cases later : l.capability.leg ∈ rest
  · rw [if_pos later, place_of_later (by rw [legs]; exact later)]
  · rw [if_neg later]
    by_cases here : l.capability.leg = leg
    · have counted : f.dispatched ≠ 0 := Nat.pos_iff_ne_zero.1 sent
      rw [place_of_leg legs once here, if_neg ne, stepPlace, Capability.leg_eq_iff.1 here,
        if_neg counted]
    · have other : l ≠ { capability := leg.capability } := by
        intro same
        rw [same] at here
        exact here (Capability.leg_eq_iff.2 rfl)
      rw [if_neg other]
      apply place_of_left
      rw [legs, List.mem_cons, not_or]
      exact ⟨here, later⟩

/-- As long as nothing was sent on such a leg, its line is ahead, and so are the lines of the legs
to come. -/
theorem place_of_unsent {leg : Leg} {rest : List Leg} (legs : f.legs = leg :: rest)
    (once : leg ∉ rest) (ne : leg ≠ .run) (count : f.dispatched = 0)
    (ahead : l.capability.leg ∈ rest ∨ l = { capability := leg.capability }) :
    f.place begun l = .ahead := by
  rcases ahead with later | own
  · exact place_of_later (by rw [legs]; exact later)
  · have here : l.capability.leg = leg := by
      rw [own]
      exact Capability.leg_eq_iff.2 rfl
    have plain : l = { capability := l.capability } := by rw [own]
    rw [place_of_leg legs once here, if_neg ne, stepPlace, if_pos plain, if_pos count]

/-- A command that goes out alone goes out on its own line. -/
theorem filter_posting (stage : Nat) (a : Address) (c : Command) (l : Line) :
    ([(a, c)].map (Course.Entry.posting stage)).filter (·.line = l) =
      if l = Course.Entry.lineOf stage c then [Course.Entry.posting stage (a, c)] else [] := by
  by_cases own : l = Course.Entry.lineOf stage c
  · simp [Course.Entry.posting, own]
  · simp [Course.Entry.posting, own, Ne.symm own]

end Place

/-! ## Lines of a call that passes on -/

/-- What a call that passes on may do to a line. -/
inductive Opening (chain : List Address) (opens : Prop) : Place → List Posting → Place → Prop
  | first (q : Posting) (head : chain[0]? = some q.address) (range : opens) :
      Opening chain opens .ahead [q] (.on 1 (some q.command.token))
  | still : Opening chain opens .ahead [] .ahead
  | gone (p : Place) : Opening chain opens p [] .behind

section Opening

variable {plan : List Stage} {begun : Nat} {f g h : Flow} {done effects : List Effect}
  {started : List Stage} {l : Line}

/-- While a flow passes on, no line gets ahead of it that was not. -/
theorem Between.ahead (between : Between plan begun f done started h)
    (passes : Passes plan begun f)
    (ahead : h.place (begun + started.length) l = .ahead) : f.place begun l = .ahead := by
  have on_way : l.capability.leg ∈ h.legs := by
    apply Classical.byContradiction
    intro left
    rw [place_of_left left] at ahead
    cases ahead
  have legs := between.legs
  cases way : f.legs with
  | nil =>
      rw [way, List.suffix_nil] at legs
      simp [legs] at on_way
  | cons leg rest =>
      rw [way, List.suffix_cons_iff] at legs
      rcases legs with same | shorter
      · unfold place leg? at ahead ⊢
        rw [same] at ahead
        rw [way]
        split at ahead
        · rename_i later
          rw [if_pos later]
        · rename_i now_
          rw [if_neg now_]
          split at ahead
          · rename_i here
            rw [if_pos here]
            split at ahead
            · rename_i run
              rw [if_pos run]
              refine lanePlace_of_future (Classical.byContradiction fun past => ?_)
              unfold lanePlace at ahead
              rw [if_neg (by omega)] at ahead
              split at ahead
              · split at ahead <;> cases ahead
              · cases ahead
            · rename_i step
              rw [if_neg step]
              unfold stepPlace at ahead ⊢
              split at ahead
              · rename_i plain
                rw [if_pos plain, if_pos (passes.dispatched_eq ?_)]
                intro run
                rw [leg?, way, here, Option.some.injEq, Capability.leg_eq_iff] at run
                exact step run.symm
              · cases ahead
          · cases ahead
      · apply place_of_later
        rw [way]
        exact shorter.subset on_way

/-- Of commands that go out on the lines of a stage one after the other, a line has at most one. -/
theorem filter_of_lines {sent : List Posting} {stage index : Nat}
    (lines : ∀ (k : Nat) (q : Posting), sent[k]? = some q →
      q.line = ⟨.runPhase, stage, index + k⟩) (l : Line) :
    sent.filter (·.line = l) =
      if l.capability = .runPhase ∧ l.stage = stage ∧ index ≤ l.index then
        sent[l.index - index]?.toList
      else [] := by
  induction sent generalizing index with
  | nil => simp
  | cons q sent ih =>
      have head : q.line = ⟨.runPhase, stage, index⟩ := lines 0 q rfl
      have rest := @ih (index + 1) fun k r at_ => by
        rw [lines (k + 1) r at_, Nat.add_assoc, Nat.add_comm 1 k]
      rw [List.filter_cons, rest, head]
      obtain ⟨capability, number, i⟩ := l
      by_cases here : i = index
      · subst here
        simp only [Line.mk.injEq, decide_eq_true_eq]
        grind
      · simp only [Line.mk.injEq, decide_eq_true_eq]
        grind

theorem Passes.nodup (passes : Passes plan begun f) : f.legs.Nodup := by
  cases passes with
  | setup on => rw [on.legs]; decide
  | run on => rw [on.legs]; decide
  | cut legs => rw [legs]; decide
  | tearDown legs => rw [legs]; decide

/-- A call that passes on to a step opens the line of the step. -/
theorem Between.opening_step {leg : Leg} {a : Address}
    (between : Between plan begun f done started h) (passes : Passes plan begun f)
    (ne : leg ≠ .run) (on : h.leg? = some leg) (count : h.dispatched = 0)
    (next : f.chains.address? leg.capability 0 = some a) (l : Line) :
    Opening (f.chains.chain l.capability)
      (l.capability = .runPhase → begun ≤ l.stage ∧ l.stage < begun + started.length)
      (f.place begun l)
      (([(a, h.stepCommand leg)].map
        (Course.Entry.posting (begun + started.length - 1))).filter (·.line = l))
      (h.commanded.place (begun + started.length) l) := by
  obtain ⟨rest, legs⟩ : ∃ rest, h.legs = leg :: rest := List.head?_eq_some_iff.1 on
  have nodup := between.passes.nodup
  rw [legs, List.nodup_cons] at nodup
  have line : Course.Entry.lineOf (begun + started.length - 1) (h.stepCommand leg) =
      { capability := leg.capability } := by
    cases leg with
    | run => exact absurd rfl ne
    | setup => rfl
    | tearDown => rfl
  have token : (h.stepCommand leg).token = h.nextToken := by cases leg <;> rfl
  have ahead : l.capability.leg ∈ rest ∨ l = { capability := leg.capability } →
      f.place begun l = .ahead :=
    fun unsent => between.ahead passes (place_of_unsent legs nodup.1 ne count unsent)
  rw [filter_posting, line,
    place_of_step (f := h.commanded) legs nodup.1 ne (Nat.succ_pos h.dispatched)]
  by_cases later : l.capability.leg ∈ rest
  · have other : l ≠ { capability := leg.capability } := by
      rintro rfl
      rw [show Capability.leg leg.capability = leg from Capability.leg_eq_iff.2 rfl] at later
      exact nodup.1 later
    rw [if_pos later, if_neg other, ahead (.inl later)]
    exact .still
  · rw [if_neg later]
    by_cases own : l = { capability := leg.capability }
    · rw [if_pos own, if_pos own, ahead (.inr own),
        show h.commanded.dispatched = 1 from congrArg (· + 1) count,
        show h.commanded.pendingStep = some (h.stepCommand leg).token from congrArg some token.symm]
      refine .first _ (by rw [own]; exact next) ?_
      intro run
      rw [own, ← Capability.leg_eq_iff] at run
      exact absurd run.symm ne
    · rw [if_neg own, if_neg own]
      exact .gone _

/-- The commands of a fan-out go out on the lines of its stage, one on each. -/
theorem FanOut.posted {index : Nat} {positions : List Nat} {a : Address}
    (fan : FanOut f index positions a g effects)
    (inside : ∀ position ∈ positions, position < f.build.phases.length) (stage k : Nat)
    (q : Posting) (at_ : ((sends effects).map (Course.Entry.posting stage))[k]? = some q) :
    q.line = ⟨.runPhase, stage, index + k⟩ ∧ q.address = a ∧
      q.command.token = ⟨f.minted + k + 1⟩ := by
  rw [List.getElem?_map, Option.map_eq_some_iff] at at_
  obtain ⟨s, sent, rfl⟩ := at_
  rcases fan.commanded inside sent with ⟨b, position, p, rfl, -⟩
  exact ⟨rfl, rfl, rfl⟩

/-- A call that passes on to a stage opens the lines of the stage. -/
theorem Between.opening_stage {s : Stage} {a : Address}
    (between : Between plan begun f done started h) (passes : Passes plan begun f)
    (live : h.aborted = false)
    (on : OnRun plan (begun + started.length) (begun + started.length) h)
    (at_ : plan[begun + started.length]? = some s)
    (head : f.chains.address? .runPhase 0 = some a) (l : Line) :
    Opening (f.chains.chain l.capability)
      (l.capability = .runPhase → begun ≤ l.stage ∧ l.stage < begun + started.length + 1)
      (f.place begun l)
      (((sends (h.fanOut s)).map (Course.Entry.posting (begun + started.length))).filter
        (·.line = l))
      ((h.startStage s).1.place (begun + started.length + 1) l) := by
  have head' : h.chains.address? .runPhase 0 = some a := between.steady.chains ▸ head
  rcases on.startStage live at_ head' with ⟨fan, onStage, inside⟩
  have legs := onStage.legs
  have posted := fan.posted (fun position mem => on.laid.lt_of_mem at_ mem)
    (begun + started.length)
  have ahead : l.capability = .runPhase → begun + started.length ≤ l.stage →
      f.place begun l = .ahead := by
    intro run future
    refine between.ahead passes ?_
    rw [place_of_leg on.legs (by decide) (by rw [run]; rfl), if_pos rfl]
    exact lanePlace_of_future future
  rw [filter_of_lines fun k q at_k => (posted k q at_k).1]
  by_cases run : l.capability = .runPhase
  · rw [place_of_leg (f := (h.startStage s).1) legs (by decide) (by rw [run]; rfl), if_pos rfl]
    rcases Nat.lt_trichotomy l.stage (begun + started.length) with past | running | future
    · rw [lanePlace_of_past (by omega), if_neg (by omega)]
      exact .gone _
    · rw [if_pos ⟨run, running, Nat.zero_le _⟩, Nat.sub_zero]
      rcases Nat.lt_or_ge l.index s.members.length with lt | ge
      · obtain ⟨q, at_q⟩ : ∃ q,
            ((sends (h.fanOut s)).map
                (Course.Entry.posting (begun + started.length)))[l.index]? = some q := by
          refine ⟨_, List.getElem?_eq_getElem ?_⟩
          rw [List.length_map, fan.count]
          exact lt
        rcases posted _ q at_q with ⟨-, address, token⟩
        have lane := fan.lanes l.index lt
        rw [Nat.zero_add] at lane
        rw [lanePlace_of_lane (by omega) lane, at_q, ahead run (Nat.le_of_eq running.symm)]
        simp only [Lane.command, ← token, Option.toList_some]
        refine .first q ?_ fun _ => ⟨by omega, by omega⟩
        rw [run, address]
        exact head
      · -- the stage has no phase with that index
        have none_ : ((sends (h.fanOut s)).map
              (Course.Entry.posting (begun + started.length)))[l.index]? = none := by
          rw [List.getElem?_eq_none_iff, List.length_map, fan.count]
          exact ge
        have lane : (h.startStage s).1.lanes[l.index]? = none := by
          rw [List.getElem?_eq_none_iff, inside.width]
          exact ge
        rw [none_, lanePlace, if_neg (by omega), if_pos (by omega), lane]
        exact .gone _
    · rw [lanePlace_of_future (by omega), if_neg (by omega), ahead run (Nat.le_of_lt future)]
      exact .still
  · rw [if_neg fun both => run both.1]
    by_cases later : l.capability.leg ∈ [Leg.tearDown]
    · have before : h.place (begun + started.length) l = .ahead :=
        place_of_later (by rw [on.legs]; exact later)
      have behind : (h.startStage s).1.place (begun + started.length + 1) l = .ahead :=
        place_of_later (by rw [legs]; exact later)
      rw [between.ahead passes before, behind]
      exact .still
    · have behind : (h.startStage s).1.place (begun + started.length + 1) l = .behind := by
        apply place_of_left
        rw [legs, List.mem_cons, not_or]
        refine ⟨fun leg => run ?_, later⟩
        exact (Capability.leg_eq_iff.1 leg).symm
      rw [behind]
      exact .gone _

/-- What a call that passes on does to every line. -/
theorem Lands.opening (lands : Lands plan begun f effects started g) (passes : Passes plan begun f)
    (l : Line) :
    Opening (f.chains.chain l.capability)
      (l.capability = .runPhase → begun ≤ l.stage ∧ l.stage < begun + started.length)
      (f.place begun l)
      (((sends effects).map (Course.Entry.posting (begun + started.length - 1))).filter
        (·.line = l))
      (g.place (begun + started.length) l) := by
  cases lands with
  | step leg ne a between on live count next =>
      rw [sends_append, between.silent, List.nil_append]
      exact between.opening_step passes ne on count next l
  | @stage _ started _ s a between live on at_ some_ head =>
      have length : begun + (started ++ [s]).length = begun + started.length + 1 := by
        rw [List.length_append, List.length_singleton, Nat.add_assoc]
      rw [length, Nat.add_sub_cancel, between.sends_startStage]
      exact between.opening_stage passes live on at_ head l
  | finished build effects between on silent endless phases =>
      rw [place_of_over (f := Flow.finish _) rfl, sends_append, sends_append, between.silent,
        silent]
      exact .gone _

end Opening

/-! ## Lines of a call whose event is taken by a turn that waits -/

section Reply

variable {plan : List Stage} {begun : Nat} {f g : Flow} {effects : List Effect}
  {started : List Stage} {l : Line} {e : Event} {now : Moment} {n : Course.Entry} {t : Token}

/-- A command of a step that answers a reply: only the line of the leg moves. -/
theorem walk_of_step {leg : Leg} {rest : List Leg} {stage : Nat} {a : Address} {c : Command}
    (legs : f.legs = leg :: rest) (once : leg ∉ rest) (ne : leg ≠ .run) (sent : 0 < f.dispatched)
    (waits : f.pendingStep = some t)
    (answers : n.AnswersOn { capability := leg.capability } t)
    (may : n.Succeeds ∨ leg.capability = .tearDown ∧ n.before.aborted = true)
    (next : f.chains.address? leg.capability f.dispatched = some a)
    (kept : g.legs = f.legs) (count : g.dispatched = f.dispatched + 1)
    (step : g.pendingStep = some c.token)
    (line : Course.Entry.lineOf stage c = { capability := leg.capability }) :
    Walk (f.chains.chain l.capability) n l (f.place begun l)
      (([(a, c)].map (Course.Entry.posting stage)).filter (·.line = l)) (g.place begun l) := by
  rw [filter_posting, line, place_of_step legs once ne sent,
    place_of_step (kept.trans legs) once ne (by omega)]
  by_cases here : l = { capability := leg.capability }
  · have own : l.capability.leg ∉ rest := by
      rw [here, show Capability.leg leg.capability = leg from Capability.leg_eq_iff.2 rfl]
      exact once
    rw [if_pos here, if_neg own, if_pos here, if_neg own, if_pos here, waits, count, step]
    subst here
    exact .next f.dispatched t (Course.Entry.posting stage (a, c)) answers may next
  · rw [if_neg here, if_neg here, if_neg here]
    split
    · exact .stay _ nofun
    · exact .leave _

/-- What a reply to a phase does to the lines: only the line of the phase moves. -/
theorem place_of_lane {index : Nat} {change : Lane → Lane} (legs : f.legs = [.run, .tearDown])
    (kept : g.legs = f.legs) (lanes : g.lanes = f.lanes.modify index change)
    (other : l ≠ ⟨.runPhase, begun - 1, index⟩) : g.place begun l = f.place begun l := by
  by_cases here : l.capability.leg = .run
  · rw [place_of_leg (kept.trans legs) (by decide) here, place_of_leg legs (by decide) here,
      if_pos rfl, if_pos rfl, lanePlace, lanePlace]
    by_cases future : begun ≤ l.stage
    · rw [if_pos future, if_pos future]
    · rw [if_neg future, if_neg future]
      by_cases running : begun = l.stage + 1
      · have ne : index ≠ l.index := by
          rintro rfl
          apply other
          rw [Capability.leg_eq_iff] at here
          cases l
          simp_all [Leg.capability]
        rw [if_pos running, if_pos running, lanes, List.getElem?_modify_ne _ _ ne]
      · rw [if_neg running, if_neg running]
  · unfold place leg?
    rw [kept, legs]
    simp [Ne.symm here]

theorem place_of_running {lane : Lane} {index : Nat} (legs : f.legs = [.run, .tearDown])
    (pos : 0 < begun) (lane_at : f.lanes[index]? = some lane) :
    f.place begun ⟨.runPhase, begun - 1, index⟩ = .on lane.sent lane.awaited := by
  rw [place_of_leg legs (by decide) rfl, if_pos rfl]
  exact lanePlace_of_lane (by simp; omega) lane_at

/-- Only the line that an event answers is waited on for it. -/
theorem line_eq_of_answersOn {index sent : Nat} (legs : f.legs = [.run, .tearDown])
    (call : n.call = .process e now) (kind : e.kind = .phaseEnd) {patch : PhasePatch}
    (phase : e.phase = some patch) (answers : n.AnswersOn l t)
    (on : f.place begun l = .on sent (some t)) (at_ : patch.index = index) :
    l = ⟨.runPhase, begun - 1, index⟩ := by
  obtain ⟨e', now', call', -, kind', -, names⟩ := answers
  rw [call] at call'
  cases call'
  have run : l.capability = .runPhase := by
    rw [kind] at kind'
    cases capability : l.capability <;> rw [capability] at kind' <;>
      first | rfl | cases kind'
  rcases names run with ⟨patch', phase', index'⟩
  rw [phase] at phase'
  cases phase'
  rw [place_of_leg legs (by decide) (by rw [run]; rfl), if_pos rfl] at on
  have running : begun = l.stage + 1 := by
    unfold lanePlace at on
    split at on
    · cases on
    · split at on
      · assumption
      · cases on
  cases l
  simp_all

/-- A reply to a phase that sends nothing closes its line. -/
theorem walk_of_closed {lane : Lane} {index : Nat} (legs : f.legs = [.run, .tearDown])
    (pos : 0 < begun) (kept : g.legs = f.legs) (lanes : g.lanes = f.lanes.modify index clearedLane)
    (lane_at : f.lanes[index]? = some lane) (awaited : lane.awaited = some t)
    (answers : n.AnswersOn ⟨.runPhase, begun - 1, index⟩ t)
    (only : ∀ (l : Line) (sent : Nat) (t : Token), f.place begun l = .on sent (some t) →
      n.AnswersOn l t → l = ⟨.runPhase, begun - 1, index⟩) :
    Walk (f.chains.chain l.capability) n l (f.place begun l) [] (g.place begun l) := by
  by_cases here : l = ⟨.runPhase, begun - 1, index⟩
  · have cleared : g.lanes[index]? = some (clearedLane lane) := by
      rw [lanes, List.getElem?_modify_eq, lane_at]
      rfl
    rw [here, place_of_running legs pos lane_at, place_of_running (kept.trans legs) pos cleared,
      awaited]
    exact .close lane.sent t answers
  · rw [place_of_lane legs kept lanes here]
    exact .stay _ fun sent t on answers => here (only l sent t on answers)

/-- A reply to a phase that sends the next command moves its line on. -/
theorem walk_of_next {lane : Lane} {index : Nat} {a : Address} {c : Command} {p : Phase}
    (legs : f.legs = [.run, .tearDown])
    (pos : 0 < begun) (kept : g.legs = f.legs)
    (lanes : g.lanes = f.lanes.modify index (Lane.command · c.token))
    (lane_at : f.lanes[index]? = some lane) (awaited : lane.awaited = some t)
    (answers : n.AnswersOn ⟨.runPhase, begun - 1, index⟩ t) (succeeds : n.Succeeds)
    (next : f.chains.address? .runPhase lane.sent = some a) (kind : c.kind = .runPhase)
    (phase : c.phase = some p) (own : p.index = index)
    (only : ∀ (l : Line) (sent : Nat) (t : Token), f.place begun l = .on sent (some t) →
      n.AnswersOn l t → l = ⟨.runPhase, begun - 1, index⟩) :
    Walk (f.chains.chain l.capability) n l (f.place begun l)
      (([(a, c)].map (Course.Entry.posting (begun - 1))).filter (·.line = l))
      (g.place begun l) := by
  have line : Course.Entry.lineOf (begun - 1) c = ⟨.runPhase, begun - 1, index⟩ := by
    rw [Course.Entry.lineOf, phase, ← own, kind]
  rw [filter_posting, line]
  by_cases here : l = ⟨.runPhase, begun - 1, index⟩
  · have commanded : g.lanes[index]? = some (Lane.command lane c.token) := by
      rw [lanes, List.getElem?_modify_eq, lane_at]
      rfl
    rw [if_pos here, here, place_of_running legs pos lane_at,
      place_of_running (kept.trans legs) pos commanded, awaited]
    exact .next lane.sent t (Course.Entry.posting (begun - 1) (a, c)) answers (.inl succeeds) next
  · rw [if_neg here, place_of_lane legs kept lanes here]
    exact .stay _ fun sent t on answers => here (only l sent t on answers)

/-- When a phase settles, the line of the phase moves on or closes. -/
theorem Settled.walk {h : Flow} {patch : PhasePatch} {position : Nat} {p : Phase} {lane : Lane}
    {sent : List (Address × Command)} (settled : Settled f e patch position p lane h sent)
    (legs : f.legs = [.run, .tearDown]) (pos : 0 < begun)
    (lane_at : f.lanes[patch.index]? = some lane) (awaited : lane.awaited = some t)
    (answers : n.AnswersOn ⟨.runPhase, begun - 1, patch.index⟩ t)
    (succeeds : e.isSuccess = true → n.Succeeds)
    (only : ∀ (l : Line) (sent : Nat) (t : Token), f.place begun l = .on sent (some t) →
      n.AnswersOn l t → l = ⟨.runPhase, begun - 1, patch.index⟩) :
    Walk (f.chains.chain l.capability) n l (f.place begun l)
      ((sent.map (Course.Entry.posting (begun - 1))).filter (·.line = l)) (h.place begun l) := by
  cases settled with
  | failed => exact walk_of_closed legs pos rfl rfl lane_at awaited answers only
  | last => exact walk_of_closed legs pos rfl rfl lane_at awaited answers only
  | next a success next =>
      exact walk_of_next (g := f.behindNext e patch position) legs pos rfl rfl lane_at awaited
        answers (succeeds success) next rfl rfl rfl only

theorem adopt_frame (f : Flow) (e : Event) :
    (f.adopt e).legs = f.legs ∧ (f.adopt e).dispatched = f.dispatched ∧
      (f.adopt e).chains = f.chains ∧ (f.adopt e).minted = f.minted := by
  unfold adopt loadStages?
  cases e.stages <;> exact ⟨rfl, rfl, rfl, rfl⟩

/-- At the end of tear-down every line is left. -/
theorem TornDown.walk {h : Flow} {t : Turn} (effects : List Effect)
    (turn : TornDown h now t) (legs : f.legs = [.tearDown]) (kept : h.legs = f.legs)
    (count : h.dispatched = f.dispatched) (chains : h.chains = f.chains) (sent : 0 < f.dispatched)
    {token : Token} (waits : f.pendingStep = some token)
    (answers : n.AnswersOn { capability := .tearDown } token)
    (may : n.Succeeds ∨ Leg.capability .tearDown = .tearDown ∧ n.before.aborted = true)
    (silent : sends effects = []) (l : Line) :
    Walk (f.chains.chain l.capability) n l (f.place begun l)
      (((sends (effects ++ t.effects)).map (Course.Entry.posting (begun - 1))).filter
        (·.line = l))
      (t.flow.place begun l) := by
  rw [sends_append, silent, List.nil_append]
  cases turn with
  | sent a next =>
      rw [count, chains] at next
      exact walk_of_step (g := h.commanded) legs (by decide) (by decide) sent waits answers may
        next kept (congrArg (· + 1) count) rfl rfl
  | complete last live build eq =>
      rw [place_of_over (f := Turn.flow _) rfl]
      exact .leave _
  | ended last why =>
      rw [place_of_over (f := Turn.flow _) rfl]
      exact .leave _

/-- What a turn that takes an event and waits does to every line. -/
theorem Fed.walk {leg : Leg} {t : Turn} (fed : Fed f e now leg t) (rests : Rests plan begun f)
    (on : f.leg? = some leg) (accepted : f.accepts e = true) (waits : t.goesOn = false)
    (before : n.before = f) (call : n.call = .process e now) (l : Line) :
    Walk (f.chains.chain l.capability) n l (f.place begun l)
      (((sends t.effects).map (Course.Entry.posting (begun - 1))).filter (·.line = l))
      (t.flow.place begun l) := by
  rcases accepts_inv accepted with ⟨-, ways⟩
  have answers : ∀ l : Line, e.kind = l.capability.completion →
      (l.capability = .runPhase → ∃ patch, e.phase = some patch ∧ patch.index = l.index) →
      n.AnswersOn l e.token := by
    intro l kind names
    exact ⟨e, now, call, before ▸ accepted, kind, rfl, names⟩
  have succeeds : e.isSuccess = true → n.Succeeds := fun success => ⟨e, now, call, success⟩
  cases rests with
  | setup on' none_ sent within step =>
      have legs := on'.legs
      cases on.symm.trans (leg?_of_legs legs)
      obtain ⟨kind, token⟩ : e.kind = .setupEnd ∧ f.pendingStep = some e.token := by
        simpa [on] using ways
      rcases adopt_frame f.clearStep e with ⟨kept, count, chains, -⟩
      cases fed with
      | dropped => cases waits
      | refused => cases waits
      | adopted live success t turn =>
          cases turn with
          | left => cases waits
          | sent a next =>
              rw [chains, count] at next
              exact walk_of_step (g := (f.clearStep.adopt e).commanded) legs (by decide)
                (by decide) sent token (answers _ kind nofun) (.inl (succeeds success)) next kept
                (congrArg (· + 1) count) rfl rfl
  | run past stage on' at_ last inside step =>
      have legs := on'.legs
      cases on.symm.trans (leg?_of_legs legs)
      have pos : 0 < begun := last ▸ Nat.succ_pos past
      cases fed with
      | dropped => cases waits
      | phase stage' rest patch lane position p live queue phase lane_at awaited place at_p fits _
          turn =>
          have kind : e.kind = .phaseEnd := by
            rcases ways with ⟨leg, -⟩ | ⟨leg, -⟩ | ⟨-, kind, -⟩
            · rw [on] at leg; cases leg
            · rw [on] at leg; cases leg
            · exact kind
          have own := answers ⟨.runPhase, begun - 1, patch.index⟩ kind
            fun _ => ⟨patch, phase, rfl⟩
          have only : ∀ (l : Line) (sent : Nat) (t : Token), f.place begun l = .on sent (some t) →
              n.AnswersOn l t → l = ⟨.runPhase, begun - 1, patch.index⟩ :=
            fun l sent t on answers => line_eq_of_answersOn legs call kind phase answers on rfl
          exact (turn.of_waits waits).1.walk legs pos lane_at awaited own succeeds only
  | tearDown legs going off lanes sent within step =>
      cases on.symm.trans (leg?_of_legs legs)
      obtain ⟨kind, token⟩ : e.kind = .tearDownEnd ∧ f.pendingStep = some e.token := by
        simpa [on] using ways
      have own := answers { capability := .tearDown } kind nofun
      cases fed with
      | dropped => cases waits
      | pressedOn aborted t turn =>
          exact turn.walk [] legs rfl rfl rfl sent token own
            (.inr ⟨rfl, before ▸ aborted⟩) rfl l
      | cleaned live success plain t turn =>
          rcases adopt_frame f.clearStep e with ⟨kept, count, chains, -⟩
          exact turn.walk _ legs kept count chains sent token own (.inl (succeeds success)) rfl l
      | failed live fails =>
          rw [place_of_over (f := Turn.flow _) rfl]
          exact .leave _
  | finished legs => simp [leg?, legs] at on

end Reply

/-! ## Calls -/

section Called

variable {plan : List Stage} {begun : Nat} {f g : Flow} {call : Call} {effects : List Effect}
  {started : List Stage} {e : Event} {now : Moment}

theorem leg_mem_of_ahead {l : Line} (ahead : f.place begun l = .ahead) :
    l.capability.leg ∈ f.legs := by
  apply Classical.byContradiction
  intro left
  rw [place_of_left left] at ahead
  cases ahead

theorem Fed.ahead {leg : Leg} {t : Turn} (fed : Fed f e now leg t) (rests : Rests plan begun f)
    (on : f.leg? = some leg) (goesOn : t.goesOn = true) {l : Line}
    (ahead : t.flow.place begun l = .ahead) : f.place begun l = .ahead := by
  rcases fed.passing goesOn with ⟨-, -, -, -, legs⟩
  have on_way := leg_mem_of_ahead ahead
  rcases legs with shorter | ⟨same, run⟩
  · exact place_of_later (shorter.subset on_way)
  · have way : f.legs = [.run, .tearDown] := by
      subst run
      rcases rests.on_run on with ⟨_, _, _, _, on', -⟩
      exact on'.legs
    by_cases here : l.capability.leg = .run
    · rw [place_of_leg (same.trans way) (by decide) here, if_pos rfl] at ahead
      rw [place_of_leg way (by decide) here, if_pos rfl]
      refine lanePlace_of_future (Classical.byContradiction fun past => ?_)
      unfold lanePlace at ahead
      rw [if_neg past] at ahead
      split at ahead
      · split at ahead <;> cases ahead
      · cases ahead
    · rw [same, way, List.mem_cons] at on_way
      apply place_of_later
      rw [way]
      exact on_way.resolve_left here

theorem Opening.walk {chain : List Address} {n : Course.Entry} {l : Line} {p q : Place}
    {sent : List Posting}
    (opening : Opening chain
      (l.capability = .runPhase → n.begun ≤ l.stage ∧ l.stage < n.begun + n.started.length)
      p sent q)
    {before : Place} (ahead : p = .ahead → before = .ahead) : Walk chain n l before sent q := by
  cases opening with
  | first q head range =>
      rw [ahead rfl]
      exact .first q head range
  | still =>
      rw [ahead rfl]
      exact .stay _ nofun
  | gone => exact .leave _

/-- What a call does to every line. -/
theorem Called.walk (called : Called plan begun f call effects started g)
    (rests : Rests plan begun f) (l : Line) :
    Walk (f.chains.chain l.capability) ⟨f, call, g, effects, begun, started⟩ l (f.place begun l)
      ((Course.Entry.postings ⟨f, call, g, effects, begun, started⟩).filter (·.line = l))
      (g.place (begun + started.length) l) := by
  unfold Course.Entry.postings
  cases called with
  | idle touched none_ unanswered silent endless =>
      have frame := touched.frame
      have same : g.place begun l = f.place begun l := by
        apply place_congr <;> rw [frame]
      rw [silent, List.length_nil, Nat.add_zero, same]
      refine .stay _ ?_
      rintro sent t - ⟨e, now, call_eq, accepted, -⟩
      rw [unanswered e now call_eq] at accepted
      cases accepted
  | answered e now call_eq accepted answered =>
      cases answered with
      | waits leg t eq on fed waits =>
          exact fed.walk rests on accepted waits rfl call_eq l
      | @passes effects _ _ leg t eq on fed goesOn passes lands =>
          have steady : Steady f t.flow := eq ▸ steady_turn f leg (some e) now
          have opening := lands.opening passes l
          rw [steady.chains] at opening
          rw [sends_append, (fed.passing goesOn).1, List.nil_append]
          exact Opening.walk (n := ⟨f, call, g, t.effects ++ effects, begun, started⟩) opening
            (fed.ahead rests on goesOn)

end Called

end Flow
end BuildPipeline
