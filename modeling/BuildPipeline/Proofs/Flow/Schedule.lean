import BuildPipeline.Proofs.Descent
import BuildPipeline.Proofs.Flow.Advance
import BuildPipeline.Proofs.Flow.Commuting
import BuildPipeline.Proofs.Flow.Discipline
import BuildPipeline.Provider.Step

/-!
The order of replies does not matter. A schedule starts a flow and then answers, one after the
other, any commands that the flow waits on; what the providers reply is fixed by the lines and the
positions on them (`Schedule`). All schedules are of one length, and the builds that they end with
are the same but for the status message and the children of the repository (`Schedule.confluent`).

A flow on a schedule is a machine that steps wherever a line is waited on (`Flow.replying`). The
machine descends, as replies on different lines commute and every reply brings the flow nearer to
its end.
-/

namespace BuildPipeline

open Time (Moment)

/-- What the providers reply: on every line, a result for every position of the chain. -/
abbrev Replies : Type :=
  Line → Nat → StepResult

/-! ## Answers -/

/-- The event is made out to the command. -/
structure Event.Matches (e : Event) (c : Command) : Prop where
  kind : e.kind = c.kind.completion
  token : e.token = c.token
  index : e.phase.map (·.index) = c.phase.map (·.index)

/-- The events say the same, whatever their kind, build and token. -/
def Event.Agrees (e e' : Event) : Prop :=
  e' = { e with kind := e'.kind, buildId := e'.buildId, token := e'.token }

/-- The event that answers the command with a token on a line. -/
def Line.answer (l : Line) (t : Token) (r : StepResult) : Event :=
  Command.answer
    { kind := l.capability
      token := t
      build := { id := ⟨""⟩, createdAt := Moment.origin }
      phase := if l.capability = .runPhase then some { id := "", index := l.index } else none }
    r

section Answers

variable {c : Command} {l : Line} {t : Token} {r : StepResult}

theorem kind_answer (c : Command) (r : StepResult) : (c.answer r).kind = c.kind.completion := by
  cases r <;> rfl

theorem token_answer (c : Command) (r : StepResult) : (c.answer r).token = c.token := by
  cases r <;> rfl

theorem index_patch (out : StepOutput) (p : PhasePatch) : (out.patch p).index = p.index := by
  unfold StepOutput.patch
  cases out.container <;> rfl

theorem matches_failed (c : Command) (code : UInt16) (message : String) :
    (Event.failed c code message).Matches c := by
  refine ⟨rfl, rfl, ?_⟩
  cases phase : c.phase <;> simp [Event.failed, Event.completion, phase]

theorem index_answer (c : Command) (r : StepResult) :
    (c.answer r).phase.map (·.index) = c.phase.map (·.index) := by
  cases r with
  | error e => exact (matches_failed c _ _).index
  | ok out => cases phase : c.phase <;> simp [Command.answer, Event.completion, phase, index_patch]

theorem matches_answer (c : Command) (r : StepResult) : (c.answer r).Matches c :=
  ⟨kind_answer c r, token_answer c r, index_answer c r⟩

/-- Only an answer to set-up brings stages. -/
theorem proper_answer (c : Command) (r : StepResult) : (c.answer r).Proper := by
  intro stages
  cases r with
  | error e => exact absurd rfl stages
  | ok out =>
      have setup : c.kind = .setup := by
        apply Classical.byContradiction
        intro other
        exact stages (if_neg other)
      rw [kind_answer, setup]
      rfl

theorem agrees_answer (kind : c.kind = l.capability)
    (index : c.phase.map (·.index) = if l.capability = .runPhase then some l.index else none) :
    (l.answer t r).Agrees (c.answer r) := by
  have named : c.phase.map (fun p => ({ index := p.index } : PhasePatch)) =
      (if l.capability = .runPhase then some ({ id := "", index := l.index } : Phase)
        else none).map fun p => { index := p.index } := by
    have both := congrArg (Option.map fun index => ({ index } : PhasePatch)) index
    rw [Option.map_map] at both
    split <;> simp_all [Function.comp_def]
  unfold Event.Agrees Line.answer
  cases r with
  | error e => simp [Command.answer, Event.failed, Event.completion, named]
  | ok out => simp [Command.answer, Event.completion, named, kind]

end Answers

namespace Flow

section Agrees

variable {f : Flow} {e e' : Event}

theorem turn_agrees (agrees : e.Agrees e') (leg : Leg) (now : Moment) :
    f.turn leg (some e') now = f.turn leg (some e) now := by
  rw [agrees]
  cases leg with
  | setup => rfl
  | run =>
      cases queue : f.stages with
      | nil => simp only [turn, runTurn, queue]
      | cons stage rest =>
          simp only [turn, runTurn, queue, takePhase]
          rfl
  | tearDown => rfl

theorem drive_agrees (agrees : e.Agrees e') (now : Moment) :
    f.drive (some e') now = f.drive (some e) now ∧
      f.startedBy (some e') now = f.startedBy (some e) now := by
  cases legs : f.legs with
  | nil =>
      rw [drive_of_over _ now legs, drive_of_over _ now legs, startedBy_of_over _ now legs,
        startedBy_of_over _ now legs]
      exact ⟨rfl, rfl⟩
  | cons leg rest =>
      rw [drive_of_legs now legs, drive_of_legs now legs, startedBy_of_legs now legs,
        startedBy_of_legs now legs, turn_agrees agrees, starting?_of_event, starting?_of_event]
      exact ⟨rfl, rfl⟩

theorem process_of_accepted {now : Moment} (accepted : f.accepts e = true) :
    f.process e now = f.drive (some e) now := by
  rcases accepts_inv accepted with ⟨going, -⟩
  have completes : e.kind ≠ .phaseUpdate := by
    intro update
    rw [accepts_of_update update] at accepted
    cases accepted
  simp only [process, going, completes, accepted, Bool.false_eq_true, if_false, if_true]

end Agrees

/-! ## Lines that are waited on -/

section Due

variable {plan : List Stage} {begun sent : Nat} {f g : Flow} {l : Line} {t : Token} {e : Event}

/-- What it means that a line is waited on. -/
theorem place_inv (on : f.place begun l = .on sent (some t)) :
    l.capability ≠ .runPhase ∧ l = { capability := l.capability } ∧
        f.leg? = some l.capability.leg ∧ f.pendingStep = some t ∨
      l.capability = .runPhase ∧ begun = l.stage + 1 ∧ f.leg? = some .run ∧
        ∃ lane, f.lanes[l.index]? = some lane ∧ lane.awaited = some t := by
  unfold place at on
  split at on
  · cases on
  · split at on
    · rename_i here
      split at on
      · rename_i run
        unfold lanePlace at on
        split at on
        · cases on
        · split at on
          · rename_i started
            split at on
            · rename_i lane lane_at
              rcases Place.on.inj on with ⟨-, awaited⟩
              rw [run] at here
              exact .inr ⟨run, started, here, lane, lane_at, awaited⟩
            · cases on
          · cases on
      · rename_i other
        unfold stepPlace at on
        split at on
        · rename_i plain
          split at on
          · cases on
          · exact .inl ⟨other, plain, here, (Place.on.inj on).2⟩
        · cases on
    · cases on

theorem accepts_of_place (on : f.place begun l = .on sent (some t)) (going : f.ended = false)
    (kind : e.kind = l.capability.completion) (token : e.token = t)
    (index : l.capability = .runPhase → e.phase.map (·.index) = some l.index) :
    f.accepts e = true := by
  rcases place_inv on with ⟨other, -, leg, waits⟩ | ⟨run, -, leg, lane, lane_at, awaited⟩
  · cases capability : l.capability with
    | setup =>
        rw [capability] at leg kind
        simp [accepts, going, leg, kind, waits, token, Capability.leg, Capability.completion]
    | runPhase => exact absurd capability other
    | tearDown =>
        rw [capability] at leg kind
        simp [accepts, going, leg, kind, waits, token, Capability.leg, Capability.completion]
  · rcases Option.map_eq_some_iff.1 (index run) with ⟨patch, phase, here⟩
    rw [run] at kind
    simp [accepts, going, leg, kind, phase, here, awaited?, lane_at, awaited, token,
      Capability.completion]

/-- A token that is waited on is waited on on a line. -/
theorem Rests.due (rests : Rests plan begun f) (waits : t ∈ f.outstanding) :
    ∃ l sent, f.place begun l = .on sent (some t) := by
  rw [mem_outstanding] at waits
  cases rests with
  | setup on none_ sent within step =>
      have own : f.pendingStep = some t := by simpa [on.lanes] using waits
      refine ⟨{ capability := .setup }, f.dispatched, ?_⟩
      rw [place_of_step on.legs (by simp) (by simp) sent, own]
      rfl
  | run past stage on at_ last inside open_ =>
      obtain ⟨lane, mem, awaited⟩ : ∃ lane ∈ f.lanes, lane.awaited = some t := by
        simpa [on.step] using waits
      rcases List.mem_iff_getElem?.1 mem with ⟨i, lane_at⟩
      refine ⟨⟨.runPhase, begun - 1, i⟩, lane.sent, ?_⟩
      rw [place_of_running on.legs (by omega) lane_at, awaited]
  | tearDown legs going off lanes sent within step =>
      have own : f.pendingStep = some t := by simpa [lanes] using waits
      refine ⟨{ capability := .tearDown }, f.dispatched, ?_⟩
      rw [place_of_step legs (by simp) (by simp) sent, own]
      rfl
  | finished _ _ _ lanes step => simp [lanes, step] at waits

theorem mem_outstanding_of_place (on : f.place begun l = .on sent (some t)) :
    t ∈ f.outstanding := by
  rw [mem_outstanding]
  rcases place_inv on with ⟨-, -, -, waits⟩ | ⟨-, -, -, lane, lane_at, awaited⟩
  · exact .inl waits
  · exact .inr ⟨lane, List.mem_of_getElem? lane_at, awaited⟩

/-- Alike flows wait on the same lines. -/
theorem Alike.place (alike : Alike f g) (on : f.place begun l = .on sent (some t)) :
    ∃ t', g.place begun l = .on sent (some t') := by
  unfold Flow.place at on ⊢
  rw [← alike.legs, ← alike.leg?]
  split at on
  · cases on
  · rename_i reached
    rw [if_neg reached]
    split at on
    · rename_i here
      rw [if_pos here]
      split at on
      · rename_i run
        rw [if_pos run]
        unfold Flow.lanePlace at on ⊢
        split at on
        · cases on
        · rename_i past
          rw [if_neg past]
          split at on
          · rename_i started
            rw [if_pos started]
            split at on
            · rename_i lane lane_at
              rcases Place.on.inj on with ⟨rfl, awaited⟩
              rcases alike.lane lane_at with ⟨other, at_other, bare⟩
              rcases Prod.mk.inj bare with ⟨same, waits⟩
              rw [awaited] at waits
              rcases Option.isSome_iff_exists.1 waits with ⟨t', awaited'⟩
              rw [at_other]
              exact ⟨t', by rw [← same, ← awaited']⟩
            · cases on
          · cases on
      · rename_i step
        rw [if_neg step]
        unfold Flow.stepPlace at on ⊢
        rw [← alike.count]
        split at on
        · rename_i plain
          rw [if_pos plain]
          split at on
          · cases on
          · rename_i counted
            rcases Place.on.inj on with ⟨rfl, waits⟩
            have waits' := alike.step
            rw [waits] at waits'
            rcases Option.isSome_iff_exists.1 waits'.symm with ⟨t', pending⟩
            rw [if_neg counted]
            exact ⟨t', by rw [← pending]⟩
        · cases on
    · cases on

end Due

/-! ## The machine -/

/-- The line is waited on: the position of its last command on it, and the token of the command. -/
def due? (f : Flow) (begun : Nat) (l : Line) : Option (Nat × Token) :=
  match f.place begun l with
  | .on sent (some t) => some (sent - 1, t)
  | .on _ none | .ahead | .behind => none

/-- A flow that is given replies, with the number of stages that were started. It steps with a line
when the reply on the line arrives. -/
def replying (replies : Replies) (now : Moment) : Machine (Nat × Flow) Line where
  step s l := (s.2.due? s.1 l).map fun (position, t) =>
    let e := l.answer t (replies l position)
    (s.1 + (s.2.startedBy (some e) now).length, (s.2.drive (some e) now).1)

/-- The flows are alike, and as many stages were started. -/
def AlikeAt (s s' : Nat × Flow) : Prop :=
  s.1 = s'.1 ∧ s.2.Alike s'.2

/-- The flow is not aborted and rests. -/
def LiveAt (s : Nat × Flow) : Prop :=
  s.2.aborted = false ∧ ∃ plan, Rests plan s.1 s.2

section Machine

variable {plan : List Stage} {begun position sent : Nat} {f g : Flow} {l m : Line} {t : Token}
  {replies : Replies} {now : Moment} {s s' : Nat × Flow}

theorem due?_of_place (on : f.place begun l = .on sent (some t)) :
    f.due? begun l = some (sent - 1, t) := by
  unfold due?
  rw [on]

theorem place_of_due? (due : f.due? begun l = some (position, t)) :
    ∃ sent, f.place begun l = .on sent (some t) ∧ position = sent - 1 := by
  unfold due? at due
  split at due
  · rename_i sent t' on
    rcases Prod.mk.inj (Option.some.inj due) with ⟨rfl, rfl⟩
    exact ⟨sent, on, rfl⟩
  · cases due
  · cases due
  · cases due

theorem replying_step (step : (replying replies now).step s l = some s') :
    ∃ sent t, s.2.place s.1 l = .on sent (some t) ∧
      s' = (s.1 + (s.2.startedBy (some (l.answer t (replies l (sent - 1)))) now).length,
        (s.2.drive (some (l.answer t (replies l (sent - 1)))) now).1) := by
  rcases Option.map_eq_some_iff.1 step with ⟨⟨position, t⟩, due, rfl⟩
  rcases place_of_due? due with ⟨sent, on, rfl⟩
  exact ⟨sent, t, on, rfl⟩

theorem step_of_place (on : s.2.place s.1 l = .on sent (some t)) :
    (replying replies now).step s l =
      some (s.1 + (s.2.startedBy (some (l.answer t (replies l (sent - 1)))) now).length,
        (s.2.drive (some (l.answer t (replies l (sent - 1)))) now).1) := by
  simp only [replying, due?_of_place on, Option.map_some]

theorem index_line_answer (l : Line) (t : Token) (r : StepResult) (run : l.capability = .runPhase) :
    (l.answer t r).phase.map (·.index) = some l.index := by
  unfold Line.answer
  rw [index_answer, if_pos run]
  rfl

theorem accepts_line_answer (on : f.place begun l = .on sent (some t)) (going : f.ended = false)
    (r : StepResult) : f.accepts (l.answer t r) = true :=
  accepts_of_place on going (kind_answer _ _) (token_answer _ _) (index_line_answer l t r)

theorem going_of_place (rests : Rests plan begun f) (on : f.place begun l = .on sent (some t)) :
    f.ended = false := by
  cases rests with
  | setup on' => exact on'.going
  | run _ _ on' => exact on'.going
  | tearDown _ going => exact going
  | finished legs =>
      rw [place_of_over legs] at on
      cases on

/-- What a step of the machine is. -/
theorem LiveAt.answered (live : LiveAt s) (step : (replying replies now).step s l = some s') :
    ∃ plan e, Answered plan s.1 s.2 e now (s.2.drive (some e) now).2 (s.2.startedBy (some e) now)
        (s.2.drive (some e) now).1 ∧
      s' = (s.1 + (s.2.startedBy (some e) now).length, (s.2.drive (some e) now).1) ∧
      Rests plan s'.1 s'.2 := by
  rcases replying_step step with ⟨sent, t, on, rfl⟩
  obtain ⟨-, plan, rests⟩ := live
  have accepted := accepts_line_answer on (going_of_place rests on) (replies l (sent - 1))
  rcases rests.answered accepted (proper_answer _ _) now with ⟨answered, landed⟩
  exact ⟨_, _, answered, rfl, landed⟩

theorem equivalence_alikeAt : Equivalence AlikeAt where
  refl s := ⟨rfl, .refl s.2⟩
  symm same := ⟨same.1.symm, same.2.symm⟩
  trans first second := ⟨first.1.trans second.1, first.2.trans second.2⟩

/-- Alike flows step alike. -/
theorem AlikeAt.follows {a b c : Nat × Flow} (same : AlikeAt a b)
    (step : (replying replies now).step a l = some c) :
    ∃ d, (replying replies now).step b l = some d ∧ AlikeAt c d := by
  obtain ⟨begun, f⟩ := a
  obtain ⟨begun', g⟩ := b
  obtain ⟨rfl : begun = begun', alike⟩ := same
  rcases replying_step step with ⟨sent, t, on, rfl⟩
  rcases alike.place on with ⟨t', on'⟩
  have agrees :
      (l.answer t (replies l (sent - 1))).Agrees (l.answer t' (replies l (sent - 1))) := by
    refine agrees_answer rfl ?_
    split <;> rfl
  rcases drive_agrees (f := g) agrees now with ⟨drive, started⟩
  rcases alike.drive (some (l.answer t (replies l (sent - 1)))) now with ⟨landed, starts⟩
  refine ⟨_, step_of_place on', ?_, ?_⟩
  · rw [started, starts]
  · rw [drive]
    exact landed

/-- Two different lines that are waited on are lines of the running stage. -/
theorem run_of_two (apart : l ≠ m) {sent' : Nat} {t' : Token}
    (on : f.place begun l = .on sent (some t)) (on' : f.place begun m = .on sent' (some t')) :
    f.leg? = some .run ∧ l.capability = .runPhase ∧ m.capability = .runPhase ∧
      (∃ lane, f.lanes[l.index]? = some lane ∧ lane.awaited = some t) ∧
      (∃ lane, f.lanes[m.index]? = some lane ∧ lane.awaited = some t') ∧ l.index ≠ m.index := by
  have inj : ∀ k k' : Capability, f.leg? = some k.leg → f.leg? = some k'.leg → k = k' := by
    intro k k' one two
    have same := Option.some.inj (one.symm.trans two)
    exact (Capability.leg_eq_iff.1 same).symm.trans (Capability.leg_eq_iff.1 rfl)
  rcases place_inv on with ⟨other, plain, leg, -⟩ | ⟨run, started, leg, lane⟩
  · rcases place_inv on' with ⟨-, plain', leg', -⟩ | ⟨run', -, leg', -⟩
    · refine absurd ?_ apart
      rw [plain, plain', inj _ _ leg leg']
    · exact absurd (inj _ .runPhase leg leg') other
  · rcases place_inv on' with ⟨other', -, leg', -⟩ | ⟨run', started', -, lane'⟩
    · exact absurd (inj _ .runPhase leg' leg) other'
    · refine ⟨leg, run, run', lane, lane', fun same => apart ?_⟩
      cases l
      cases m
      simp_all

theorem place_of_same_lane (legs : g.legs = f.legs) (run : m.capability = .runPhase)
    (lane : g.lanes[m.index]? = f.lanes[m.index]?) : g.place begun m = f.place begun m := by
  unfold place lanePlace leg?
  rw [legs, lane]
  simp only [run, if_true]

/-- A reply on a line starts no stage and leaves the other lines alone on which the running stage is
waited on. -/
theorem Rests.beside (rests : Rests plan begun f) (live : f.aborted = false) (apart : l ≠ m)
    {sent' : Nat} {t' : Token} (on : f.place begun l = .on sent (some t))
    (on' : f.place begun m = .on sent' (some t')) (r : StepResult) (now : Moment) :
    f.startedBy (some (l.answer t r)) now = [] ∧
      (f.drive (some (l.answer t r)) now).1.place begun m = .on sent' (some t') := by
  obtain ⟨leg, run, run', ⟨lane, lane_at, waits⟩, ⟨lane', lane_at', waits'⟩, ne⟩ :=
    run_of_two apart on on'
  rcases rests.on_run leg with ⟨past, stage, at_, -, onRun, inside, -⟩
  rcases Option.map_eq_some_iff.1 (index_line_answer l t r run) with ⟨patch, phase, index⟩
  rw [← index] at lane_at ne
  have token : (l.answer t r).token = t := token_answer _ r
  obtain ⟨position, p, sent, -, settled, -, -, drive, started⟩ :=
    inside.stays onRun live at_ phase lane_at (waits.trans (congrArg some token.symm)) (Ne.symm ne)
      lane_at' waits' now
  rcases settled.frame with ⟨legs, -, -, -, -, -, lanes⟩
  refine ⟨started, ?_⟩
  rw [drive, place_of_same_lane legs run' (lanes _ (Ne.symm ne)), on']

/-- Steps on different lines commute. -/
theorem LiveAt.commutes {a b c : Nat × Flow} (live : LiveAt a) (apart : l ≠ m)
    (step : (replying replies now).step a l = some b)
    (step' : (replying replies now).step a m = some c) :
    ∃ d d', (replying replies now).step b m = some d ∧
      (replying replies now).step c l = some d' ∧ AlikeAt d d' := by
  obtain ⟨begun, f⟩ := a
  obtain ⟨alive, plan, rests⟩ := live
  rcases replying_step step with ⟨sent, t, on, rfl⟩
  rcases replying_step step' with ⟨sent', t', on', rfl⟩
  obtain ⟨leg, run, run', ⟨lane, lane_at, waits⟩, ⟨lane', lane_at', waits'⟩, ne⟩ :=
    run_of_two apart on on'
  rcases rests.on_run leg with ⟨past, stage, at_, -, onRun, inside, -⟩
  rcases rests.beside alive apart on on' (replies l (sent - 1)) now with ⟨none_, later⟩
  obtain ⟨none_', later'⟩ :=
    rests.beside alive (Ne.symm apart) on' on (replies m (sent' - 1)) now
  obtain ⟨patch, phase, index⟩ :=
    Option.map_eq_some_iff.1 (index_line_answer l t (replies l (sent - 1)) run)
  obtain ⟨patch', phase', index'⟩ :=
    Option.map_eq_some_iff.1 (index_line_answer m t' (replies m (sent' - 1)) run')
  rw [← index] at lane_at ne
  rw [← index'] at lane_at' ne
  have token : (l.answer t (replies l (sent - 1))).token = t := token_answer _ _
  have token' : (m.answer t' (replies m (sent' - 1))).token = t' := token_answer _ _
  obtain ⟨alike, started⟩ := inside.commutes onRun alive at_ phase lane_at
    (waits.trans (congrArg some token.symm)) phase' lane_at'
    (waits'.trans (congrArg some token'.symm)) ne now
  simp only [none_, none_', List.length_nil, Nat.add_zero]
  refine ⟨_, _, step_of_place later, step_of_place later', ?_, alike⟩
  rw [started]

/-- The machine descends. -/
theorem descends (replies : Replies) (now : Moment) :
    (replying replies now).Descends AlikeAt LiveAt (fun s => s.2.left) Lighter where
  equivalence := equivalence_alikeAt
  founded := founded_lighter
  keeps live step := by
    rcases live.answered step with ⟨plan, e, -, rfl, rests⟩
    exact ⟨(steady_drive _ _ _).aborted.trans live.1, plan, rests⟩
  falls live step := by
    rcases live.answered step with ⟨plan, e, answered, rfl, -⟩
    exact answered.lighter live.1 rfl
  follows same step := same.follows step
  commutes live apart step step' := live.commutes apart step step'

end Machine

end Flow

/-! ## Schedules -/

namespace Course

/-- The builds that the flow ended with. -/
def ended (c : Course) : List Build :=
  c.entries.flatMap fun n => ends n.effects

/-- A flow is started, and then so many replies arrive, each to a command that is waited on. What is
replied to a command is told by its line and by its position among the commands of the line. -/
inductive Schedule (build : Build) (script : Option String) (chains : Chains) (replies : Replies)
    (now : Moment) : Nat → Course → Prop
  | start : Schedule build script chains replies now 0
      ((idle build script chains).then_ (.start now))
  | reply {k : Nat} {c : Course} (schedule : Schedule build script chains replies now k c)
      (p : Posting) (position : Nat) (sent : (sentOn p.line c.entries)[position]? = some p)
      (waits : p.command.token ∈ c.flow.outstanding) :
      Schedule build script chains replies now (k + 1)
        (c.then_ (.process (p.command.answer (replies p.line position)) now))

section Schedule

variable {build : Build} {script : Option String} {chains : Chains} {replies : Replies}
  {now : Moment} {k : Nat} {c : Course}

theorem Schedule.of (schedule : Schedule build script chains replies now k c) :
    Of build script chains c := by
  induction schedule with
  | start => exact .start now
  | reply _ p position _ _ of => exact of.step _ (proper_answer p.command _)

theorem Of.nodup (of : Of build script chains c) (l : Line) : (sentOn l c.entries).Nodup := by
  have tokens : (c.postings.map (·.command.token.number)).Nodup := by
    rw [of.logged.tokens]
    exact List.nodup_range'
  exact (List.Nodup.of_map _ tokens).filter _

/-- A command that is waited on is the last one of its line, and its line is waited on. -/
theorem Of.due (of : Of build script chains c) {p : Posting} {position : Nat}
    (sent : (sentOn p.line c.entries)[position]? = some p)
    (waits : p.command.token ∈ c.flow.outstanding) :
    c.flow.place c.begun.length p.line = .on (position + 1) (some p.command.token) := by
  rcases of.rests.due waits with ⟨l, n, on⟩
  rcases of.logged.last on with ⟨q, last, token⟩
  rcases mem_sentOn.1 (List.mem_of_getElem? sent) with ⟨mem, -⟩
  rcases mem_sentOn.1 (List.mem_of_getLast? last) with ⟨mem', line⟩
  obtain rfl : q = p := of.logged.unique mem' mem token
  rw [← line] at on last
  have length := ((of.logged.lines q.line).on n _ on).1
  have pos : 0 < n := by
    rw [← length]
    exact List.length_pos_of_mem (List.mem_of_getLast? last)
  rw [List.getLast?_eq_getElem?, length] at last
  have same : position = n - 1 := by
    have lt := (List.getElem?_eq_some_iff.1 sent).1
    exact (List.getElem?_inj lt (of.nodup q.line)).1 (sent.trans last.symm)
  rw [on, same, Nat.sub_add_cancel pos]

/-- A command that is waited on was sent. -/
theorem Of.sent_of_waits (of : Of build script chains c) {t : Token}
    (waits : t ∈ c.flow.outstanding) :
    ∃ (p : Posting) (position : Nat), (sentOn p.line c.entries)[position]? = some p ∧
      p.command.token = t := by
  rcases of.rests.due waits with ⟨l, n, on⟩
  rcases of.logged.last on with ⟨p, last, token⟩
  rcases mem_sentOn.1 (List.mem_of_getLast? last) with ⟨-, rfl⟩
  rw [List.getLast?_eq_getElem?] at last
  exact ⟨p, _, last, token⟩

/-- A command names its phase if its line is one of the run. -/
theorem index_of_fits {p : Posting} (fits : p.Fits) :
    p.command.phase.map (·.index) =
      if p.line.capability = .runPhase then some p.line.index else none := by
  obtain ⟨capability, index, run, -⟩ := fits
  rw [capability]
  cases phase : p.command.phase with
  | none => rw [if_neg (by rw [← run, phase]; simp)]; rfl
  | some q =>
      rw [if_pos (run.1 (by rw [phase]; rfl)), index q phase]
      rfl

/-- An event that is made out to a command that is waited on is accepted. -/
theorem Of.accepts (of : Of build script chains c) {p : Posting} (sent : p ∈ c.postings)
    (waits : p.command.token ∈ c.flow.outstanding) {e : Event} (own : e.Matches p.command) :
    c.flow.accepts e = true := by
  rcases List.mem_iff_getElem?.1 (mem_sentOn.2 ⟨sent, rfl⟩) with ⟨position, here⟩
  have on := of.due here waits
  have fits := of.logged.fits p sent
  refine Flow.accepts_of_place on (Flow.going_of_place of.rests on) ?_ own.token ?_
  · rw [own.kind, fits.1]
  · intro runs
    rw [own.index, index_of_fits fits, if_pos runs]

/-- The flow takes in what arrives on a schedule, as the machine does. -/
theorem Of.replied (of : Of build script chains c) {p : Posting} {position : Nat}
    (sent : (sentOn p.line c.entries)[position]? = some p)
    (waits : p.command.token ∈ c.flow.outstanding) (replies : Replies) (now : Moment) :
    c.flow.accepts (p.command.answer (replies p.line position)) = true ∧
      (Flow.replying replies now).step (c.begun.length, c.flow) p.line =
        some ((c.then_ (.process (p.command.answer (replies p.line position)) now)).begun.length,
          (c.then_ (.process (p.command.answer (replies p.line position)) now)).flow) := by
  have on := of.due sent waits
  rcases mem_sentOn.1 (List.mem_of_getElem? sent) with ⟨mem, -⟩
  have fits := of.logged.fits p mem
  have accepted : c.flow.accepts (p.command.answer (replies p.line position)) = true :=
    of.accepts mem waits (matches_answer _ _)
  refine ⟨accepted, ?_⟩
  obtain ⟨drive, started⟩ := Flow.drive_agrees (f := c.flow)
    (agrees_answer (t := p.command.token) (r := replies p.line position) fits.1.symm
      (index_of_fits fits)) now
  have flow : (c.then_ (.process (p.command.answer (replies p.line position)) now)).flow =
      (c.flow.drive (some (p.command.answer (replies p.line position))) now).1 := by
    change (c.flow.process _ now).1 = _
    rw [Flow.process_of_accepted accepted]
  have begun : (c.then_ (.process (p.command.answer (replies p.line position)) now)).begun.length =
      c.begun.length +
        (c.flow.startedBy (some (p.command.answer (replies p.line position))) now).length := by
    rw [begun_then_, List.length_append]
    simp only [Flow.started, accepted, if_true]
  rw [flow, begun, drive, started]
  exact Flow.step_of_place (s := (c.begun.length, c.flow)) on

theorem Schedule.path (schedule : Schedule build script chains replies now k c) :
    (Flow.replying replies now).Path
      (((idle build script chains).then_ (.start now)).begun.length,
        ((idle build script chains).then_ (.start now)).flow)
      k (c.begun.length, c.flow) := by
  induction schedule with
  | start => exact .refl _
  | reply schedule p position sent waits path =>
      exact path.snoc (schedule.of.replied sent waits replies now).2

theorem Of.done_iff (of : Of build script chains c) :
    (Flow.replying replies now).Done (c.begun.length, c.flow) ↔ c.flow.outstanding = [] := by
  constructor
  · intro done
    cases waits : c.flow.outstanding with
    | nil => rfl
    | cons t rest =>
        rcases of.rests.due (waits ▸ List.mem_cons_self) with ⟨l, n, on⟩
        have step := done l
        rw [Flow.step_of_place on] at step
        cases step
  · intro idle l
    cases step : (Flow.replying replies now).step (c.begun.length, c.flow) l with
    | none => rfl
    | some s =>
        rcases Flow.replying_step step with ⟨n, t, on, -⟩
        have waits := Flow.mem_outstanding_of_place on
        rw [idle] at waits
        cases waits

/-- The flow tells the build that it ends with once, when it ends. -/
theorem Schedule.ended_eq (schedule : Schedule build script chains replies now k c) :
    c.ended = c.flow.result := by
  induction schedule with
  | start =>
      have lands := ((Flow.passes_takeOff build script chains).lands now).1
      have own : ((idle build script chains).then_ (.start now)).ended =
          ends ((idle build script chains).entry (.start now)).effects := by
        simp [ended, then_, idle]
      rw [own]
      exact lands.ends
  | @reply k c schedule p position sent waits told =>
      have of := schedule.of
      have accepted := (of.replied sent waits replies now).1
      have going := (Flow.accepts_inv accepted).1
      have answered := (of.rests.answered accepted (proper_answer _ _) now).1
      have ends_ := answered.ends going
      rw [Flow.result_of_going going] at told
      have split : (c.then_ (.process (p.command.answer (replies p.line position)) now)).ended =
          c.ended ++ ends (c.flow.process (p.command.answer (replies p.line position)) now).2 := by
        simp [ended, then_, entry, Flow.call]
      rw [split, told, List.nil_append, Flow.process_of_accepted accepted, ends_,
        ← Flow.process_of_accepted accepted]
      rfl

/-- All schedules of a build are of one length, and end the flow with the same build. -/
theorem Schedule.confluent (build : Build) (script : Option String) (chains : Chains)
    (replies : Replies) (now : Moment) :
    ∃ (n : Nat) (result : Build), ∀ k c, Schedule build script chains replies now k c →
      k ≤ n ∧ (c.flow.outstanding = [] ↔ k = n) ∧
      (∀ t ∈ c.flow.outstanding, ∃ (p : Posting) (position : Nat),
        (sentOn p.line c.entries)[position]? = some p ∧ p.command.token = t) ∧
      (k = n → c.flow.ended = true ∧ ∃ b, c.ended = [b] ∧ b.bare = result.bare) := by
  have of : Of build script chains ((idle build script chains).then_ (.start now)) := .start now
  have live : Flow.LiveAt (((idle build script chains).then_ (.start now)).begun.length,
      ((idle build script chains).then_ (.start now)).flow) :=
    ⟨(Flow.steady_drive (Flow.takeOff { build, script, chains }) none now).aborted, _, of.rests⟩
  rcases (Flow.descends replies now).comes live with ⟨n, last, comes⟩
  refine ⟨n, last.2.build, fun k c schedule => ?_⟩
  rcases comes.all k _ schedule.path with ⟨le, length, same⟩
  rw [schedule.of.done_iff] at length same
  refine ⟨le, length, fun t waits => schedule.of.sent_of_waits waits, fun whole => ?_⟩
  have idle := length.2 whole
  have finished := schedule.of.rests.over_of_idle idle
  refine ⟨finished, c.flow.build, ?_, (same idle).2.build.symm⟩
  rw [schedule.ended_eq, Flow.result, if_pos finished]

end Schedule

end Course
end BuildPipeline
