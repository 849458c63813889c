import BuildPipeline.Proofs.Flow.Sending

/-!
What one more call does to a course (`Course.Grows`): how it walks on every line, what its commands
have in common, which commands it sends when it starts stages, which line an accepted event answers,
and that a failed set-up leaves nothing but tear-down. `Course.Of.grow` turns this into an induction
over courses: what holds of a flow that was not started and is kept by such calls holds of every
course.
-/

namespace BuildPipeline

open Time (Moment)

/-- The first commands that are due when some stages are started, the first of which has the number
`begun`: the line of every phase, stage by stage and index by index, and the position of the phase
in the build. Without providers none is due. -/
def openings (chains : Chains) (begun : Nat) (started : List Stage) : List (Line × Nat) :=
  if chains.count .runPhase = 0 then []
  else (started.zipIdx begun).flatMap fun (s, number) =>
    s.members.zipIdx.map fun (position, index) => (⟨.runPhase, number, index⟩, position)

/-- The posting is the first command for the phase at a position of the build. -/
def Posting.Opens (chains : Chains) (p : Posting) (due : Line × Nat) : Prop :=
  p.line = due.1 ∧ chains.address? .runPhase 0 = some p.address ∧
    ∃ q, p.command.phase = some q ∧ p.command.build.phases[due.2]? = some q

namespace Course

/-- A call that starts stages sends exactly the first commands that are due to the run. -/
def Entry.FansOut (chains : Chains) (n : Entry) : Prop :=
  n.started ≠ [] →
    List.Forall₂ (Posting.Opens chains) (n.postings.filter (·.command.kind = .runPhase))
      (openings chains n.begun n.started)

/-- What one more call does to a course. -/
structure Grows (chains : Chains) (c : Course) (call : Call) : Prop where
  walks : ∀ l : Line, Walk (chains.chain l.capability) (c.entry call) l
    (c.flow.place c.begun.length l) ((c.entry call).postings.filter (·.line = l))
    ((c.then_ call).flow.place (c.then_ call).begun.length l)
  sending : Flow.Sending c.flow (c.then_ call).flow (sends (c.entry call).effects)
  way : (c.then_ call).flow.legs <:+ [.setup, .run, .tearDown]
  fansOut : (c.entry call).FansOut chains
  answers : ∀ e now, call = .process e now → c.flow.accepts e = true →
    ∃ l sent, c.flow.place c.begun.length l = .on sent (some e.token) ∧
      (c.entry call).AnswersOn l e.token
  spoils : ∀ e now, call = .process e now → c.flow.accepts e = true → e.kind = .setupEnd →
    e.isSuccess = false → (c.then_ call).flow.legs <:+ [.tearDown]

end Course

namespace Flow

section Fans

variable {plan : List Stage} {begun : Nat} {f g h : Flow} {effects : List Effect}
  {started : List Stage} {e : Event} {now : Moment} {call : Call}

theorem openings_of_barren {chains : Chains} (begun : Nat)
    (barren : ∀ s ∈ started, Barren chains s) :
    openings chains begun started = [] := by
  unfold openings
  split
  · rfl
  · rename_i some_
    rw [List.flatMap_eq_nil_iff]
    rintro ⟨s, number⟩ mem
    have empty : s.members = [] := by
      rcases List.mem_zipIdx mem with ⟨-, -, here⟩
      exact (barren s (here ▸ List.getElem_mem _)).resolve_left some_
    simp [empty]

theorem openings_append {chains : Chains} (s : Stage)
    (barren : ∀ s ∈ started, Barren chains s) (some_ : chains.count .runPhase ≠ 0) :
    openings chains begun (started ++ [s]) =
      s.members.zipIdx.map fun (position, index) =>
        (⟨.runPhase, begun + started.length, index⟩, position) := by
  have nothing := openings_of_barren begun barren
  unfold openings at nothing ⊢
  rw [if_neg some_] at nothing ⊢
  rw [List.zipIdx_append, List.flatMap_append, nothing]
  simp

/-- The commands of the fan-out of a stage are the first ones that are due for it. -/
theorem FanOut.opens {s : Stage} {a : Address} {chains : Chains}
    (fan : FanOut f 0 s.members a g effects)
    (inside : ∀ position ∈ s.members, position < f.build.phases.length)
    (head : chains.address? .runPhase 0 = some a) (number : Nat) :
    List.Forall₂ (Posting.Opens chains)
      (((sends effects).map (Course.Entry.posting number)).filter (·.command.kind = .runPhase))
      (s.members.zipIdx.map fun (position, index) => (⟨.runPhase, number, index⟩, position)) := by
  have runs : ∀ q ∈ (sends effects).map (Course.Entry.posting number),
      decide (q.command.kind = .runPhase) = true := by
    intro q mem
    rcases List.mem_map.1 mem with ⟨sent, mem', rfl⟩
    rcases List.mem_iff_getElem?.1 mem' with ⟨k, at_k⟩
    rcases fan.commanded inside at_k with ⟨b, position, p, rfl, -⟩
    rfl
  rw [List.filter_eq_self.2 runs, List.forall₂_iff_get]
  refine ⟨by simp [fan.count], ?_⟩
  intro k one two
  have lt : k < (sends effects).length := by simpa using one
  obtain ⟨b, position, p, here, member, -, at_b⟩ :=
    fan.commanded inside (List.getElem?_eq_getElem lt)
  rcases List.getElem?_eq_some_iff.1 member with ⟨within, member⟩
  rw [Nat.zero_add] at here at_b
  simp only [List.get_eq_getElem, List.getElem_map, List.getElem_zipIdx, here, member]
  refine ⟨?_, head, p.beginRun k, rfl, at_b⟩
  simp [Course.Entry.posting, Course.Entry.lineOf, Command.runPhase, Phase.beginRun]

theorem Lands.fansOut (lands : Lands plan begun f effects started g) (some_ : started ≠ []) :
    List.Forall₂ (Posting.Opens f.chains)
      (((sends effects).map (Course.Entry.posting (begun + started.length - 1))).filter
        (·.command.kind = .runPhase))
      (openings f.chains begun started) := by
  cases lands with
  | @step done started h leg ne a between on live count next =>
      rw [openings_of_barren begun between.barren, sends_append, between.silent]
      have kind : (h.stepCommand leg).kind ≠ .runPhase := by
        cases leg with
        | run => exact absurd rfl ne
        | setup => simp [stepCommand, Command.setup]
        | tearDown => simp [stepCommand, Command.tearDown]
      simp [Course.Entry.posting, kind]
  | @stage done started h s a between live on at_ some_ head =>
      have head' : h.chains.address? .runPhase 0 = some a := between.steady.chains ▸ head
      rcases on.startStage live at_ head' with ⟨fan, -⟩
      have providers : f.chains.count .runPhase ≠ 0 := by
        intro none_
        rw [Chains.address?, List.getElem?_eq_none (Nat.le_of_eq none_)] at head
        cases head
      have length : begun + (started ++ [s]).length - 1 = begun + started.length := by
        rw [List.length_append, List.length_singleton, ← Nat.add_assoc, Nat.add_sub_cancel]
      rw [between.sends_startStage, openings_append s between.barren providers, length]
      exact fan.opens (fun position mem => on.laid.lt_of_mem at_ mem) head _
  | @finished done started h build effects between on silent endless phases =>
      rw [openings_of_barren begun between.barren, sends_append, sends_append, between.silent,
        silent]
      simp [sends_finish]

theorem Called.fansOut (called : Called plan begun f call effects started g) :
    Course.Entry.FansOut f.chains ⟨f, call, g, effects, begun, started⟩ := by
  intro some_
  cases called with
  | idle => exact absurd rfl some_
  | answered e now call_eq accepted answered =>
      cases answered with
      | waits => exact absurd rfl some_
      | @passes effects _ _ leg t eq on fed goesOn passes lands =>
          have steady : Steady f t.flow := eq ▸ steady_turn f leg (some e) now
          have fans := lands.fansOut some_
          rw [steady.chains] at fans
          unfold Course.Entry.postings
          rw [sends_append, (fed.passing goesOn).1, List.nil_append]
          exact fans

end Fans

section Answers

variable {plan : List Stage} {begun : Nat} {f g : Flow} {effects : List Effect}
  {started : List Stage} {e : Event} {now : Moment} {call : Call}

/-- An event that the flow accepts answers the command that is waited on on some line. -/
theorem Rests.answers (rests : Rests plan begun f) (accepted : f.accepts e = true)
    {n : Course.Entry} (before : n.before = f) (call : n.call = .process e now) :
    ∃ l sent, f.place begun l = .on sent (some e.token) ∧ n.AnswersOn l e.token := by
  rcases accepts_inv accepted with ⟨-, ways⟩
  cases rests with
  | setup on none_ sent within waits =>
      have legs := on.legs
      obtain ⟨kind, token⟩ : e.kind = .setupEnd ∧ f.pendingStep = some e.token := by
        simpa [leg?, legs] using ways
      refine ⟨{ capability := .setup }, f.dispatched, ?_, e, now, call, before ▸ accepted, kind,
        rfl, fun run => by cases run⟩
      rw [place_of_step legs (by decide) (by decide) sent, token]
      rfl
  | run past stage on at_ last inside waits =>
      have legs := on.legs
      obtain ⟨kind, patch, lane, phase, lane_at, awaited⟩ : e.kind = .phaseEnd ∧
          ∃ patch lane, e.phase = some patch ∧ f.lanes[patch.index]? = some lane ∧
            lane.awaited = some e.token := by
        simpa [leg?, legs] using ways
      refine ⟨⟨.runPhase, begun - 1, patch.index⟩, lane.sent, ?_, e, now, call,
        before ▸ accepted, kind, rfl, fun _ => ⟨patch, phase, rfl⟩⟩
      rw [place_of_running legs (by omega) lane_at, awaited]
  | tearDown legs going off lanes sent within waits =>
      obtain ⟨kind, token⟩ : e.kind = .tearDownEnd ∧ f.pendingStep = some e.token := by
        simpa [leg?, legs] using ways
      refine ⟨{ capability := .tearDown }, f.dispatched, ?_, e, now, call, before ▸ accepted,
        kind, rfl, fun run => by cases run⟩
      rw [place_of_step legs (by decide) (by decide) sent, token]
      rfl
  | finished legs => simp [leg?, legs] at ways

theorem Rests.way (rests : Rests plan begun f) : f.legs <:+ [.setup, .run, .tearDown] := by
  cases rests with
  | setup on => exact on.legs ▸ List.suffix_refl _
  | run _ _ on =>
      rw [on.legs]
      exact List.suffix_cons _ _
  | tearDown legs =>
      rw [legs]
      exact ⟨[.setup, .run], rfl⟩
  | finished legs =>
      rw [legs]
      exact List.nil_suffix

theorem leg_mem_legs {leg : Leg} (on : f.leg? = some leg) : leg ∈ f.legs :=
  List.mem_of_mem_head? on

/-- An aborted flow, or one behind a failed set-up, goes on to tear-down. -/
theorem Lands.spoiled (lands : Lands plan begun f effects started g)
    (spoiled : f.aborted = true ∧ f.legs <:+ [.run, .tearDown] ∨ f.legs <:+ [.tearDown]) :
    g.legs <:+ [.tearDown] := by
  have short : ∀ h : Flow, h.legs <:+ f.legs → Leg.run ∉ h.legs → h.legs <:+ [.tearDown] := by
    intro h suffix_ run
    rcases spoiled with ⟨-, way⟩ | way
    · rcases List.suffix_cons_iff.1 (suffix_.trans way) with whole | rest
      · rw [whole] at run
        exact absurd List.mem_cons_self run
      · exact rest
    · exact suffix_.trans way
  cases lands with
  | @step done started h leg ne a between on live count next =>
      refine short h.commanded between.legs ?_
      intro run
      obtain ⟨rest, legs⟩ : ∃ rest, h.legs = leg :: rest := List.head?_eq_some_iff.1 on
      have way : leg :: rest <:+ [.run, .tearDown] := by
        rw [← legs]
        rcases spoiled with ⟨-, way⟩ | way
        · exact between.legs.trans way
        · exact (between.legs.trans way).trans (List.suffix_cons _ _)
      rcases List.suffix_cons_iff.1 way with whole | shorter
      · exact ne (List.cons.inj whole).1
      · have mem : Leg.run ∈ leg :: rest := legs ▸ run
        simpa using shorter.subset mem
  | @stage done started h s a between live on at_ some_ head =>
      have run : Leg.run ∈ h.legs := by
        rw [on.legs]
        exact List.mem_cons_self
      rcases spoiled with ⟨aborted, -⟩ | way
      · rw [between.steady.aborted, aborted] at live
        cases live
      · simpa using (between.legs.trans way).subset run
  | finished => exact List.nil_suffix

/-- A failed set-up leaves nothing but tear-down. -/
theorem Called.spoiled (called : Called plan begun f call effects started g)
    (rests : Rests plan begun f) (call_eq : call = .process e now) (accepted : f.accepts e = true)
    (kind : e.kind = .setupEnd) (fails : e.isSuccess = false) : g.legs <:+ [.tearDown] := by
  cases called with
  | idle touched none_ unanswered =>
      rw [unanswered e now call_eq] at accepted
      cases accepted
  | answered e' now' call_eq' _ answered =>
      rw [call_eq] at call_eq'
      cases call_eq'
      rcases accepts_inv accepted with ⟨-, ways⟩
      have on : f.leg? = some .setup := by
        rcases ways with ⟨on, -⟩ | ⟨-, kind', -⟩ | ⟨-, kind', -⟩
        · exact on
        · rw [kind] at kind'
          cases kind'
        · rw [kind] at kind'
          cases kind'
      have legs := (rests.on_setup on).1.legs
      cases answered with
      | waits leg t eq on' fed waits =>
          cases on.symm.trans on'
          cases fed with
          | dropped => cases waits
          | adopted _ success => rw [fails] at success; cases success
          | refused => cases waits
      | passes leg t eq on' fed goesOn passes lands =>
          cases on.symm.trans on'
          cases fed with
          | dropped _ ne aborted =>
              refine lands.spoiled (.inl ⟨aborted, ?_⟩)
              simp [Turn.again, leaveLeg, legs]
          | adopted _ success => rw [fails] at success; cases success
          | refused live _ =>
              refine lands.spoiled (.inr ?_)
              simp [Turn.again, leaveLeg, failBuild, clearStep, legs]

end Answers

end Flow

namespace Course

variable {build : Build} {script : Option String} {chains : Chains} {c : Course}

theorem Of.grows (of : Of build script chains c) {call : Call} (legal : call.Legal) :
    Grows chains c call := by
  have rests := of.rests
  rcases rests.called legal with ⟨called, landed⟩
  rw [← of.chains_eq]
  refine ⟨?_, called.sending rests, landed.way, called.fansOut, ?_, ?_⟩
  · intro l
    rw [begun_then_, List.length_append]
    exact called.walk rests l
  · intro e now call_eq accepted
    exact rests.answers accepted rfl call_eq
  · intro e now call_eq accepted kind fails
    exact called.spoiled rests call_eq accepted kind fails

/-- The course of a flow that was not started. -/
def idle (build : Build) (script : Option String) (chains : Chains) : Course where
  flow := { build, script, chains }

theorem grows_start (now : Moment) : Grows chains (idle build script chains) (.start now) := by
  have passes := Flow.passes_takeOff build script chains
  rcases passes.lands now with ⟨lands, landed⟩
  have sending := lands.sending
  refine ⟨?_, ⟨sending.tokens, sending.minted, sending.legs, sending.phases, sending.ids⟩,
    landed.way, lands.fansOut, ?_, ?_⟩
  · intro l
    rw [begun_then_, List.length_append]
    have opening := lands.opening passes l
    exact Flow.Opening.walk (n := (idle build script chains).entry (.start now)) opening id
  · intro e now' call_eq
    cases call_eq
  · intro e now' call_eq
    cases call_eq

/-- What holds of a flow that was not started, and is kept by what a call does, holds of every
course. -/
theorem Of.grow {motive : Course → Prop} (of : Of build script chains c)
    (empty : motive (idle build script chains))
    (grow : ∀ (c : Course) (call : Call), Grows chains c call → motive c →
      motive (c.then_ call)) : motive c := by
  induction of with
  | start now => exact grow _ _ (grows_start now) empty
  | step of call legal ih => exact grow _ call (of.grows legal) ih

end Course
end BuildPipeline
