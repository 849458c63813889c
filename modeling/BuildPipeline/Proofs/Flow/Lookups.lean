import BuildPipeline.Proofs.Flow.Iterations
import BuildPipeline.Proofs.Flow.Ranges
import BuildPipeline.Proofs.Flow.Waiting

/-!
What the run looks up. The parts of a turn on the run look for phases by position, for positions by
index, for the next address of the chain and for what an event says of a phase, and where they do
not find it they leave the work undone without a word. For each part there is a predicate that says
that it finds all that it looks for (`FindsNext` up to `FindsCall`), which follows the definition of
the part branch by branch. Where the stages in the queue are laid out over the phases
(`Flow.Ranged`), starting and checking them finds everything; a reply also needs what the flow made
sure of when it accepted the event. So no call of a course comes up against a branch that gives up
(`Course.Of.unfailing`).
-/

namespace BuildPipeline

open Time (Moment)

namespace Flow

/-! ## Finding -/

/-- The position holds a phase of the build. -/
def Has (f : Flow) (position : Nat) : Prop :=
  ∃ p, f.build.phases[position]? = some p

/-- The position holds a phase of the build that has a result to resolve. -/
def HasPending (f : Flow) (position : Nat) : Prop :=
  ∃ p, f.build.phases[position]? = some p ∧ p.runResults.getLast? = some .inFlight

/-- The next command for a phase finds its address and its phase. -/
def FindsNext (f : Flow) (index position : Nat) : Prop :=
  (∃ a, f.chains.address? .runPhase (f.sent index) = some a) ∧ f.Has position

/-- The check of a stage finds the phases of the stage, and those of the stages that it may have to
cancel. -/
def FindsStage (f : Flow) (stage : Stage) : Prop :=
  ∀ s ∈ stage :: f.stages, ∀ position ∈ s.members, f.Has position

/-- The start of a phase finds it, and the result to resolve or the next command. -/
def FindsStart (f : Flow) (index position : Nat) : Prop :=
  f.Has position ∧
    let g := f.modifyPhase position (·.beginRun index)
    if f.chains.count .runPhase = 0 then g.HasPending position else g.FindsNext index position

/-- Starting phases one by one finds each of them. -/
def FindsStarts (f : Flow) (index : Nat) : List Nat → Prop
  | [] => True
  | position :: positions =>
    f.FindsStart index position ∧ (f.startPhase index position).1.FindsStarts (index + 1) positions

/-- The failure of a phase finds the result to resolve, and then the stage. -/
def FindsFailed (f : Flow) (stage : Stage) (position : Nat) : Prop :=
  f.HasPending position ∧ (f.modifyPhase position failedRun).FindsStage stage

/-- The success of a phase finds the result to resolve, and then the stage or the next command. -/
def FindsPassed (f : Flow) (stage : Stage) (index position : Nat) (patch : PhasePatch) : Prop :=
  f.HasPending position ∧
    let g := f.modifyPhase position (passedRun patch)
    if f.chains.count .runPhase ≤ f.sent index then
      (g.modifyPhase position fun p => { p with status := p.finalResult }).FindsStage stage
    else (g.modifyPhase position (·.beginRun index)).FindsNext index position

/-- A reply to a phase says which one it is, and finds it in the running stage. -/
def FindsReply (f : Flow) (stage : Stage) (e : Event) : Prop :=
  ∃ patch position, e.phase = some patch ∧ stage.position? patch.index = some position ∧
    let g := (f.clearLane patch.index).adoptChild e.childRepository
    if e.isSuccess then g.FindsPassed stage patch.index position patch
    else g.FindsFailed stage position

/-- A turn on the run finds what it looks for: without an event it starts and checks the stage at
the front of the queue, with one it takes a reply to a phase of that stage. -/
def FindsTurn (f : Flow) (e : Option Event) : Prop :=
  f.aborted = false → f.leg? = some .run → ∀ stage rest, f.stages = stage :: rest →
    match e with
    | none =>
      (f.armed stage).FindsStarts 0 stage.members ∧ (f.startStage stage).1.FindsStage stage
    | some event => f.FindsReply stage event

/-- An update for a phase of the running stage finds the phase. -/
def FindsUpdate (f : Flow) (e : Event) : Prop :=
  ∀ patch, e.phase = some patch → e.isSuccess = true → patch.hasContainer = true →
    f.leg? = some .run → f.issuedFor patch.index e.token = true →
      ∃ position, f.runningPosition? patch.index = some position ∧ f.Has position

/-- In every round of a drive the queue is laid out and the turn finds what it looks for. -/
def FindsDrive (f : Flow) (e : Option Event) (now : Moment) : Prop :=
  ∃ rounds, Rounds now f e rounds (f.drive e now).1 (f.drive e now).2 ∧
    ∀ round ∈ rounds, round.1.Ranged ∧ round.1.FindsTurn round.2

/-- A call finds what it looks for. -/
def FindsCall (f : Flow) : Call → Prop
  | .start now => f.takeOff.FindsDrive none now
  | .process e now =>
    f.ended = false →
      if e.kind = .phaseUpdate then f.FindsUpdate e
      else f.accepts e = true → f.FindsDrive (some e) now
  | .abort _ => True

section Finding

variable {f : Flow} {stage : Stage} {rest : List Stage} {index position : Nat} {e : Event}
  {patch : PhasePatch} {p : Phase} {now : Moment} {plan : List Stage} {begun : Nat}

theorem has_of_lt (inside : position < f.build.phases.length) : f.Has position :=
  ⟨_, List.getElem?_eq_getElem inside⟩

theorem Has.modifyPhase (has : f.Has position) (other : Nat) (change : Phase → Phase) :
    (f.modifyPhase other change).Has position := by
  obtain ⟨p, at_⟩ := has
  have inside := (List.getElem?_eq_some_iff.1 at_).1
  rw [← List.length_modify change f.build.phases other] at inside
  exact has_of_lt inside

/-- The next command is there as long as the chain is not at its end. -/
theorem Has.findsNext (has : f.Has position)
    (more : f.sent index < f.chains.count .runPhase) : f.FindsNext index position :=
  ⟨⟨_, List.getElem?_eq_getElem more⟩, has⟩

/-! ## Stages -/

theorem Ranged.findsStage (ranged : f.Ranged) (queued : stage ∈ f.stages) :
    f.FindsStage stage := by
  intro s mem position member
  have among : s ∈ f.stages := by
    rcases List.mem_cons.1 mem with rfl | mem
    · exact queued
    · exact mem
  exact has_of_lt (ranged.lt_of_mem among member)

/-- A phase that is begun has a result to resolve. -/
theorem Has.pending_beginRun (has : f.Has position) (index : Nat) :
    (f.modifyPhase position (·.beginRun index)).HasPending position := by
  obtain ⟨p, at_⟩ := has
  exact ⟨p.beginRun index, by simp [Flow.modifyPhase, at_], by simp [Phase.beginRun]⟩

theorem Has.findsStart (has : f.Has position) (idle : f.lanes[index]? = some {}) :
    f.FindsStart index position := by
  refine ⟨has, ?_⟩
  dsimp only
  split
  · exact has.pending_beginRun index
  · rename_i providers
    have first : (f.modifyPhase position (·.beginRun index)).sent index = 0 := sent_of_lane idle
    refine (has.modifyPhase position _).findsNext ?_
    rw [first]
    exact Nat.pos_of_ne_zero providers

theorem length_startPhase :
    (f.startPhase index position).1.build.phases.length = f.build.phases.length := by
  unfold startPhase
  split
  · dsimp only
    split
    · exact (List.length_modify ..).trans (List.length_modify ..)
    · unfold commandPhase
      split <;> exact List.length_modify ..
  · rfl

/-- Starting a phase leaves the lanes of the others alone. -/
theorem lanes_startPhase_of_ne {i : Nat} (ne : i ≠ index) :
    (f.startPhase index position).1.lanes[i]? = f.lanes[i]? := by
  unfold startPhase
  split
  · dsimp only
    split
    · rfl
    · unfold commandPhase
      split
      · exact List.getElem?_modify_ne _ _ ne.symm
      · rfl
  · rfl

/-- The phases of a stage are all there to be started, as long as their lanes are idle. -/
theorem findsStarts (f : Flow) (index : Nat) (positions : List Nat)
    (inside : ∀ position ∈ positions, position < f.build.phases.length)
    (idle : ∀ k < positions.length, f.lanes[index + k]? = some {}) :
    f.FindsStarts index positions := by
  induction positions generalizing f index with
  | nil => trivial
  | cons position positions ih =>
      have has : f.Has position := has_of_lt (inside position List.mem_cons_self)
      have first : f.lanes[index]? = some {} := idle 0 (Nat.succ_pos _)
      refine ⟨has.findsStart first, ih _ (index + 1) ?_ ?_⟩
      · intro other mem
        rw [length_startPhase]
        exact inside other (List.mem_cons_of_mem _ mem)
      · intro k lt
        rw [lanes_startPhase_of_ne (by omega), show index + 1 + k = index + (k + 1) by omega]
        exact idle (k + 1) (Nat.succ_lt_succ lt)

/-- A turn without an event finds what it looks for. -/
theorem Ranged.findsTurn (ranged : f.Ranged) : f.FindsTurn none := by
  intro live on stage rest queue
  have queued : stage ∈ f.stages := by rw [queue]; exact List.mem_cons_self
  refine ⟨findsStarts _ 0 stage.members (fun position mem => ranged.lt_of_mem queued mem) ?_,
    (ranged.startStage stage).findsStage ?_⟩
  · intro k lt
    rw [Nat.zero_add]
    exact List.getElem?_replicate_of_lt lt
  · rw [stages_startStage]
    exact queued

/-! ## Replies -/

theorem HasPending.has (pending : f.HasPending position) : f.Has position := by
  obtain ⟨p, at_, -⟩ := pending
  exact ⟨p, at_⟩

theorem Ranged.findsFailed (ranged : f.Ranged) (queued : stage ∈ f.stages)
    (pending : f.HasPending position) : f.FindsFailed stage position :=
  ⟨pending, (ranged.modifyPhase position failedRun).findsStage queued⟩

theorem Ranged.findsPassed (ranged : f.Ranged) (queued : stage ∈ f.stages)
    (pending : f.HasPending position) : f.FindsPassed stage index position patch := by
  refine ⟨pending, ?_⟩
  dsimp only
  split
  · exact ((ranged.modifyPhase position _).modifyPhase position _).findsStage queued
  · rename_i more
    exact ((pending.has.modifyPhase position _).modifyPhase position _).findsNext
      (Nat.not_le.1 more)

/-- A lane that waits has a phase with a result to resolve. -/
theorem getLast?_of_awaited {providers : Nat} {lane : Lane} {token : Token}
    (fits : lane.Fits providers p) (awaited : lane.awaited = some token) :
    p.runResults.getLast? = some .inFlight := by
  cases fits with
  | pending _ _ _ _ results => rw [results, List.getLast?_concat]
  | passed none_ => rw [none_] at awaited; cases awaited
  | failed none_ => rw [none_] at awaited; cases awaited

/-- On the run each lane has its phase in the running stage. -/
theorem Rests.phase_of_lane (rests : Rests plan begun f) (ranged : f.Ranged)
    (leg : f.leg? = some .run) {lane : Lane} (lane_at : f.lanes[index]? = some lane) :
    ∃ stage rest position p, f.stages = stage :: rest ∧ stage.position? index = some position ∧
      f.build.phases[position]? = some p ∧ lane.Fits (f.chains.count .runPhase) p := by
  obtain ⟨past, stage, at_, -, on, inside, -⟩ := rests.on_run leg
  have queue := on.stages_eq at_
  have lt : index < stage.members.length := by
    rw [← inside.width]
    exact (List.getElem?_eq_some_iff.1 lane_at).1
  have place : stage.members[index]? = some stage.members[index] := List.getElem?_eq_getElem lt
  have within : stage.members[index] < f.build.phases.length :=
    ranged.lt_of_mem (by rw [queue]; exact List.mem_cons_self) (List.mem_of_getElem? place)
  have at_p := List.getElem?_eq_getElem within
  exact ⟨stage, _, _, _, queue, place, at_p, (inside.fits _ _ _ _ lane_at place at_p).1⟩

/-- A turn that takes an event which the flow accepts finds what it looks for. -/
theorem Rests.findsTurn (rests : Rests plan begun f) (ranged : f.Ranged)
    (accepted : f.accepts e = true) : f.FindsTurn (some e) := by
  intro live leg stage rest queue
  obtain ⟨patch, lane, phase, lane_at, awaited⟩ :
      ∃ patch lane, e.phase = some patch ∧ f.lanes[patch.index]? = some lane ∧
        lane.awaited = some e.token := by
    rcases (accepts_inv accepted).2 with ⟨other, -⟩ | ⟨other, -⟩ | ⟨-, -, found⟩
    · cases leg.symm.trans other
    · cases leg.symm.trans other
    · exact found
  obtain ⟨stage', rest', position, p, queue', place, at_p, fits⟩ :=
    rests.phase_of_lane ranged leg lane_at
  obtain ⟨rfl, -⟩ := List.cons.inj (queue.symm.trans queue')
  have cleared : (f.clearLane patch.index).Ranged := ranged.congr rfl rfl
  have adopted := cleared.adoptChild e.childRepository
  have pending : ((f.clearLane patch.index).adoptChild e.childRepository).HasPending position := by
    refine ⟨p, ?_, getLast?_of_awaited fits awaited⟩
    cases e.childRepository <;> exact at_p
  have queued : stage ∈ ((f.clearLane patch.index).adoptChild e.childRepository).stages := by
    rw [stages_adoptChild, show (f.clearLane patch.index).stages = f.stages from rfl, queue]
    exact List.mem_cons_self
  refine ⟨patch, position, phase, place, ?_⟩
  dsimp only
  split
  · exact adopted.findsPassed queued pending
  · exact adopted.findsFailed queued pending

/-- An update finds its phase. -/
theorem Rests.findsUpdate (rests : Rests plan begun f) (ranged : f.Ranged) :
    f.FindsUpdate e := by
  intro patch phase success container leg issued
  obtain ⟨lane, lane_at⟩ : ∃ lane, f.lanes[patch.index]? = some lane := by
    unfold issuedFor at issued
    split at issued
    · rename_i lane lane_at
      exact ⟨lane, lane_at⟩
    · cases issued
  obtain ⟨stage, rest, position, p, queue, place, at_p, -⟩ :=
    rests.phase_of_lane ranged leg lane_at
  have within := (List.getElem?_eq_some_iff.1 at_p).1
  refine ⟨position, ?_, p, at_p⟩
  rw [runningPosition?, queue, List.head?_cons, Option.bind_some, place]
  simp [within]

/-! ## Calls -/

/-- Rounds that follow one another without an event. -/
theorem Ranged.findsRounds {g : Flow} {o : Option Event} {rounds : List (Flow × Option Event)}
    {effects : List Effect} (taken : Rounds now f o rounds g effects) (ranged : f.Ranged)
    (first : f.FindsTurn o) : ∀ round ∈ rounds, round.1.Ranged ∧ round.1.FindsTurn round.2 := by
  induction taken with
  | ended => simpa using ⟨ranged, first⟩
  | waits => simpa using ⟨ranged, first⟩
  | @again _ _ e leg _ _ _ legs goesOn more ih =>
      have next := ranged.turn leg e now
      exact List.forall_mem_cons.2 ⟨⟨ranged, first⟩, ih next next.findsTurn⟩

theorem Ranged.findsDrive {o : Option Event} (ranged : f.Ranged) (first : f.FindsTurn o)
    (now : Moment) : f.FindsDrive o now := by
  obtain ⟨rounds, taken⟩ := rounds_drive f o now
  exact ⟨rounds, taken, ranged.findsRounds taken first⟩

/-- Whatever call is made on a flow that rests, it finds what it looks for. -/
theorem Rests.findsCall (rests : Rests plan begun f) (ranged : f.Ranged) {call : Call}
    (legal : call.Legal) : f.FindsCall call := by
  cases call with
  | start => exact legal.elim
  | abort => trivial
  | process e now =>
      intro going
      split
      · exact rests.findsUpdate ranged
      · intro accepted
        exact ranged.findsDrive (rests.findsTurn ranged accepted) now

end Finding

end Flow

namespace Course

variable {build : Build} {script : Option String} {chains : Chains} {c : Course}

theorem Of.ranged (of : Of build script chains c) : c.flow.Ranged := by
  induction of with
  | start now => exact (Flow.ranged_of_empty rfl).call (.start now)
  | step of call legal ih => exact ih.call call

/-- In a course the queue is laid out over the phases behind every call, and every call finds all
that it looks for. -/
theorem Of.unfailing (of : Of build script chains c) :
    ∀ n ∈ c.entries, n.after.Ranged ∧ n.before.FindsCall n.call := by
  induction of with
  | start now =>
      intro n mem
      obtain rfl := List.mem_singleton.1 mem
      have ranged : (idle build script chains).flow.Ranged := Flow.ranged_of_empty rfl
      refine ⟨ranged.call (.start now), ?_⟩
      have ready : (idle build script chains).flow.takeOff.Ranged := Flow.ranged_of_empty rfl
      exact ready.findsDrive ready.findsTurn now
  | @step c of call legal ih =>
      intro n mem
      rcases List.mem_append.1 mem with before | now_
      · exact ih n before
      · obtain rfl := List.mem_singleton.1 now_
        exact ⟨of.ranged.call call, of.rests.findsCall of.ranged legal⟩

theorem unfailing_halfWay :
    halfWay.flow.stages = [⟨[0, 1]⟩] ∧
      ∀ n ∈ halfWay.entries, n.after.Ranged ∧ n.before.FindsCall n.call :=
  ⟨by cbv, Of.unfailing of_halfWay⟩

end Course
end BuildPipeline
