import BuildPipeline.Proofs.Flow.Settling
import BuildPipeline.Proofs.Flow.Discipline
import BuildPipeline.Proofs.Flow.Way

/-!
What the running stage remembers of the tokens that it issued. A lane remembers the tokens of the
commands that went out for its phase since the stage was started, and no others
(`Course.Unchecked.issued_iff`). The tokens of an earlier stage are forgotten when the next one
starts, so an update that comes late finds its token only as long as its own stage is running.

The log of a course knows lines of checked events only. Stages that come with a wrong event make a
difference on tear-down at most, so up to there every course has the flow and the log of one whose
events are checked (`Course.Unchecked.checked`).
-/

namespace BuildPipeline

open Time (Moment)

namespace Flow

section Issued

variable {plan : List Stage} {begun i : Nat} {f g h : Flow} {e : Event} {now : Moment}
  {effects : List Effect} {started : List Stage} {call : Call} {t : Token}

theorem issuedFor_iff :
    f.issuedFor i t = true ↔ ∃ lane, f.lanes[i]? = some lane ∧ t ∈ lane.issued := by
  unfold issuedFor
  cases f.lanes[i]? with
  | none => simp
  | some lane => simp

/-- What a lane remembers behind a command. -/
theorem issuedFor_command {index : Nat} {lane : Lane} {token : Token}
    (lane_at : f.lanes[index]? = some lane)
    (lanes : g.lanes = f.lanes.modify index (Lane.command · token)) :
    g.issuedFor i t = true ↔ f.issuedFor i t = true ∨ i = index ∧ t = token := by
  rw [issuedFor_iff, issuedFor_iff, lanes]
  by_cases here : index = i
  · subst here
    simp [lane_at, Lane.command, or_comm]
  · simp [List.getElem?_modify_ne _ _ here, Ne.symm here]

/-- A reply that is taken in is not forgotten to have been waited on. -/
theorem issuedFor_cleared {index : Nat} (lanes : g.lanes = f.lanes.modify index clearedLane) :
    g.issuedFor i t = f.issuedFor i t := by
  unfold issuedFor
  rw [lanes]
  by_cases here : index = i
  · subst here
    rw [List.getElem?_modify_eq]
    cases f.lanes[index]? <;> rfl
  · rw [List.getElem?_modify_ne _ _ here]

/-- The command with a token that goes out for the phase at an index of a stage. -/
def Posted (sent : List Posting) (stage i : Nat) (t : Token) : Prop :=
  ∃ p ∈ sent, p.line = ⟨.runPhase, stage, i⟩ ∧ p.command.token = t

theorem not_posted_nil {stage : Nat} : ¬Posted [] stage i t := by
  rintro ⟨p, none_, -⟩
  cases none_

/-- What a stage remembers that was just started. -/
theorem Lands.issued (lands : Lands plan begun f effects started g) (on : g.leg? = some .run) :
    .run ∈ f.legs ∧ 0 < started.length ∧ (g.issuedFor i t = true ↔
      Posted ((sends effects).map (Course.Entry.posting (begun + started.length - 1)))
        (begun + started.length - 1) i t) := by
  cases lands with
  | @step done started h leg ne a between on' =>
      have leg_ : h.commanded.leg? = some leg := on'
      cases leg_.symm.trans on
      exact absurd rfl ne
  | @stage done started h s a between live on' at_ some_ head =>
      have head' : h.chains.address? .runPhase 0 = some a := between.steady.chains ▸ head
      rcases on'.startStage live at_ head' with ⟨fan, -, inside⟩
      have stage : begun + (started ++ [s]).length - 1 = begun + started.length := by
        rw [List.length_append, List.length_singleton]
        omega
      have posted := fan.posted (fun position mem => on'.laid.lt_of_mem at_ mem)
        (begun + started.length)
      rw [stage, between.sends_startStage]
      refine ⟨between.legs.subset (on'.legs ▸ List.mem_cons_self), by simp, ?_⟩
      constructor
      · intro issued
        obtain ⟨lane, lane_at, mem⟩ := issuedFor_iff.1 issued
        have lt : i < s.members.length := by
          rw [← inside.width]
          exact (List.getElem?_eq_some_iff.1 lane_at).1
        have lane_eq := fan.lanes i lt
        rw [Nat.zero_add, lane_at, Option.some.injEq] at lane_eq
        subst lane_eq
        obtain rfl := List.mem_singleton.1 mem
        obtain ⟨q, at_q⟩ : ∃ q, ((sends (h.fanOut s)).map
            (Course.Entry.posting (begun + started.length)))[i]? = some q := by
          refine ⟨_, List.getElem?_eq_getElem ?_⟩
          rw [List.length_map, fan.count]
          exact lt
        obtain ⟨line, -, token⟩ := posted i q at_q
        rw [Nat.zero_add] at line
        exact ⟨q, List.mem_of_getElem? at_q, line, token⟩
      · rintro ⟨q, mem, line, rfl⟩
        obtain ⟨k, at_k⟩ := List.mem_iff_getElem?.1 mem
        obtain ⟨line', -, token⟩ := posted k q at_k
        rw [line, Nat.zero_add, Line.mk.injEq] at line'
        obtain ⟨-, -, rfl⟩ := line'
        have lt : i < s.members.length := by
          rw [← fan.count]
          simpa using (List.getElem?_eq_some_iff.1 at_k).1
        have lane_at := fan.lanes i lt
        rw [Nat.zero_add] at lane_at
        exact issuedFor_iff.2 ⟨_, lane_at, token ▸ List.mem_singleton_self _⟩
  | finished build effects between => cases on

/-- What a stage remembers behind a reply that it waits with. -/
theorem Settled.issued {patch : PhasePatch} {position : Nat} {p : Phase} {lane : Lane}
    {sent : List (Address × Command)} (settled : Settled f e patch position p lane h sent)
    (lane_at : f.lanes[patch.index]? = some lane) (stage : Nat) :
    h.issuedFor i t = true ↔ f.issuedFor i t = true ∨
      Posted (sent.map (Course.Entry.posting stage)) stage i t := by
  cases settled with
  | failed =>
      rw [issuedFor_cleared (g := f.behindFailure e patch position) rfl]
      exact ⟨.inl, fun told => told.resolve_right not_posted_nil⟩
  | last =>
      rw [issuedFor_cleared (g := f.behindLast e patch position) rfl]
      exact ⟨.inl, fun told => told.resolve_right not_posted_nil⟩
  | next a success next =>
      rw [issuedFor_command (g := f.behindNext e patch position) lane_at rfl]
      refine or_congr_right ⟨?_, ?_⟩
      · rintro ⟨rfl, rfl⟩
        exact ⟨_, List.mem_singleton_self _, rfl, rfl⟩
      · rintro ⟨q, mem, line, rfl⟩
        obtain rfl := List.mem_singleton.1 mem
        exact ⟨(Line.mk.inj line).2.2.symm, rfl⟩

/-- What the running stage remembers behind a call. -/
theorem Called.issued (called : Called plan begun f call effects started g)
    (on : g.leg? = some .run) :
    started = [] ∧ f.leg? = some .run ∧ (g.issuedFor i t = true ↔ f.issuedFor i t = true ∨
        Posted ((sends effects).map (Course.Entry.posting (begun - 1))) (begun - 1) i t) ∨
      .run ∈ f.legs ∧ 0 < started.length ∧ (g.issuedFor i t = true ↔
        Posted ((sends effects).map (Course.Entry.posting (begun + started.length - 1)))
          (begun + started.length - 1) i t) := by
  cases called with
  | idle touched none_ unanswered silent =>
      have leg : g.leg? = f.leg? := by
        rw [touched.frame]
        rfl
      have lanes : g.issuedFor i t = f.issuedFor i t := by
        rw [touched.frame]
        rfl
      rw [silent, lanes]
      exact .inl ⟨rfl, leg ▸ on, .inl, fun told => told.resolve_right not_posted_nil⟩
  | answered e now call_eq accepted answered =>
      cases answered with
      | passes leg t eq on' fed goesOn passes lands =>
          obtain ⟨silent, -, -, -, way⟩ := fed.passing goesOn
          obtain ⟨ahead, some_, issued⟩ := lands.issued on
          rw [sends_append, silent, List.nil_append]
          refine .inr ⟨?_, some_, issued⟩
          rcases way with left | ⟨stayed, -⟩
          · exact List.mem_of_mem_tail (left.subset ahead)
          · exact stayed ▸ ahead
      | waits leg t eq on' fed waits =>
          cases fed with
          | dropped => cases waits
          | refused => cases waits
          | adopted live success t turn =>
              cases turn with
              | left => cases waits
              | sent a next =>
                  have still : (f.clearStep.adopt e).leg? = some .setup :=
                    (congrArg List.head? (adopt_frame f.clearStep e).1).trans on'
                  cases still.symm.trans on
          | phase stage rest patch lane position p live queue phase lane_at awaited place at_p fits
              _ turn =>
              obtain ⟨settled, -⟩ := turn.of_waits waits
              exact .inl ⟨rfl, on', settled.issued lane_at _⟩
          | pressedOn aborted t turn =>
              cases turn with
              | sent => cases on'.symm.trans on
              | complete => cases on
              | ended => cases on
          | cleaned live success plain t turn =>
              cases turn with
              | sent a next =>
                  have still : (f.clearStep.adopt e).leg? = some .tearDown :=
                    (congrArg List.head? (adopt_frame f.clearStep e).1).trans on'
                  cases still.symm.trans on
              | complete => cases on
              | ended => cases on
          | failed => cases on

end Issued

end Flow

namespace Course

section Issued

variable {build : Build} {script : Option String} {chains : Chains} {c : Course} {call : Call}
  {f : Flow} {e : Event} {i stage : Nat} {t : Token} {old new : List Posting}

theorem posted_append :
    Flow.Posted (old ++ new) stage i t ↔ Flow.Posted old stage i t ∨ Flow.Posted new stage i t := by
  simp only [Flow.Posted, List.mem_append, or_and_right, exists_or]

/-- Nothing went out for a stage that was not started. -/
theorem Logged.not_posted (logged : Logged chains c) (ahead : .run ∈ c.flow.legs)
    (future : c.begun.length ≤ stage) : ¬Flow.Posted c.postings stage i t := by
  rintro ⟨p, mem, line, -⟩
  have leg : p.line.capability.leg = .run := by rw [line]; rfl
  have place : c.flow.place c.begun.length p.line = .ahead := by
    by_cases later : .run ∈ c.flow.legs.tail
    · exact Flow.place_of_later (leg ▸ later)
    · cases legs : c.flow.legs with
      | nil => rw [legs] at ahead; cases ahead
      | cons first rest =>
          rw [legs] at ahead later
          obtain rfl := (List.mem_cons.1 ahead).resolve_right later
          rw [Flow.place_of_leg legs later leg, if_pos rfl]
          exact Flow.lanePlace_of_future (by rw [line]; exact future)
  have sent := mem_sentOn.2 ⟨mem, rfl⟩
  rw [(logged.lines p.line).ahead place] at sent
  cases sent

/-- The running stage remembers the tokens of the commands that went out for it. -/
def Issued (c : Course) : Prop :=
  c.flow.leg? = some .run → ∀ i t,
    c.flow.issuedFor i t = true ↔ Flow.Posted c.postings (c.begun.length - 1) i t

theorem Of.issued (of : Of build script chains c) : c.Issued := by
  induction of with
  | start now =>
      intro on i t
      have lands := ((Flow.passes_takeOff build script chains).lands now).1
      obtain ⟨-, -, issued⟩ := lands.issued (i := i) (t := t) on
      rw [postings_then_, begun_then_, List.length_append]
      exact issued
  | @step c of call legal ih =>
      intro on i t
      have called := (of.rests.called legal).1
      rw [postings_then_, begun_then_, List.length_append, posted_append]
      -- the stage stays and the tokens are those of before and the new ones, or a later stage
      -- starts, which forgets the old tokens and for which nothing went out before
      rcases called.issued (i := i) (t := t) on with
        ⟨nothing, on', issued⟩ | ⟨ahead, some_, issued⟩
      · rw [show c.flow.started call = [] from nothing, List.length_nil, Nat.add_zero,
          ← ih on' i t]
        have stage : (c.entry call).postings =
            (sends (c.flow.call call).2).map (Entry.posting (c.begun.length - 1)) := by
          rw [Entry.postings, Entry.stage, show (c.entry call).started = [] from nothing]
          rfl
        rw [stage]
        exact issued
      · have future : c.begun.length ≤ c.begun.length + (c.flow.started call).length - 1 := by
          omega
        have old := of.logged.not_posted (i := i) (t := t) ahead future
        rw [or_iff_right old]
        exact issued

end Issued

end Course

/-! ## Events that were not checked -/

/-- The event without stages, unless they come with set-up. -/
def Event.checked (e : Event) : Event :=
  if e.kind = .setupEnd then e else { e with stages := none }

/-- The call with its event checked. -/
def Call.checked : Call → Call
  | .process e now => .process e.checked now
  | .start now => .start now
  | .abort now => .abort now

section Checked

variable {f : Flow} {e : Event} {now : Moment} {call : Call}

theorem Event.proper_checked (e : Event) : e.checked.Proper := by
  intro stages
  unfold checked at stages ⊢
  split at stages
  · rename_i setup
    rw [if_pos setup]
    exact setup
  · exact absurd rfl stages

theorem Call.legal_checked (later : call.Later) : call.checked.Legal := by
  cases call with
  | start => exact later.elim
  | process e now => exact e.proper_checked
  | abort => trivial

namespace Flow

/-- Before tear-down stages that come with a wrong event make no difference. -/
theorem call_checked (off : f.leg? ≠ some .tearDown) (call : Call) :
    f.call call.checked = f.call call ∧ f.started call.checked = f.started call ∧
      f.loading? call.checked = f.loading? call := by
  cases call with
  | start => exact ⟨rfl, rfl, rfl⟩
  | abort => exact ⟨rfl, rfl, rfl⟩
  | process e now =>
      by_cases setup : e.kind = .setupEnd
      · rw [Call.checked, Event.checked, if_pos setup]
        exact ⟨rfl, rfl, rfl⟩
      · rw [Call.checked, Event.checked, if_neg setup]
        have same : f.accepts { e with stages := none } = f.accepts e := rfl
        cases accepted : f.accepts e with
        | false =>
            have process : f.process { e with stages := none } now = f.process e now := by
              simp only [process, same, accepted]
              rfl
            exact ⟨process, by simp [started, same, accepted], by simp [loading?, same, accepted]⟩
        | true =>
            have on : f.leg? = some .run := by
              rcases (accepts_inv accepted).2 with ⟨-, kind, -⟩ | ⟨on, -⟩ | ⟨on, -⟩
              · exact absurd kind setup
              · exact absurd on off
              · exact on
            obtain ⟨rest, legs⟩ : ∃ rest, f.legs = .run :: rest := List.head?_eq_some_iff.1 on
            have turn : f.turn .run (some { e with stages := none }) now =
                f.turn .run (some e) now := by
              unfold Flow.turn runTurn
              cases f.stages <;> rfl
            have accepted' := same.trans accepted
            simp only [Flow.call, started, loading?, process_of_accepted accepted,
              process_of_accepted accepted', drive_of_legs now legs, startedBy_of_legs now legs,
              starting?_of_event, turn, accepted, accepted', on]
            exact ⟨trivial, trivial, by simp⟩

theorem legs_goOnTearDown (f : Flow) (now : Moment) :
    (f.goOnTearDown now).flow.legs <:+ f.legs := by
  have turn := tornDown f now
  generalize f.goOnTearDown now = t at turn
  cases turn with
  | sent => exact List.suffix_refl _
  | complete => exact List.nil_suffix
  | ended => exact List.nil_suffix

/-- A flow on tear-down does not leave it but to be over. -/
theorem legs_drive_of_tearDown (short : f.legs <:+ [.tearDown]) (e : Option Event)
    (now : Moment) : (f.drive e now).1.legs <:+ [.tearDown] := by
  have turn : ∀ {f : Flow} (e : Option Event), f.legs <:+ [.tearDown] →
      (f.turn .tearDown e now).flow.legs <:+ [.tearDown] := by
    intro f e short
    rw [turn_tearDown]
    cases e with
    | none => exact (legs_goOnTearDown f now).trans short
    | some e =>
        have taken := legs_takeStep f.clearStep e now
        simp only [tearDownTurn]
        generalize f.clearStep.takeStep e now = r at taken
        obtain ⟨g, effects, ok⟩ := r
        have legs : g.legs = f.legs := taken
        cases ok with
        | true => exact (legs_goOnTearDown g now).trans (legs ▸ short)
        | false => exact List.nil_suffix
  have only : ∀ {f : Flow} {leg : Leg} {rest : List Leg}, f.legs <:+ [.tearDown] →
      f.legs = leg :: rest → leg = .tearDown := by
    intro f leg rest short legs
    exact List.mem_singleton.1 (short.subset (legs ▸ List.mem_cons_self))
  fun_induction drive f e now with
  | case1 => exact short
  | case2 f e leg rest legs goesOn g effects driven ih =>
      obtain rfl := only short legs
      have next := ih (turn e short)
      rwa [driven] at next
  | case3 f e leg rest legs waits =>
      obtain rfl := only short legs
      exact turn e short

theorem legs_call_of_tearDown (short : f.legs <:+ [.tearDown]) (later : call.Later) :
    (f.call call).1.legs <:+ [.tearDown] := by
  cases call with
  | start => exact later.elim
  | abort now =>
      simp only [Flow.call, Flow.abort]
      split <;> exact short
  | process e now =>
      cases accepted : f.accepts e with
      | true =>
          simp only [Flow.call, process_of_accepted accepted]
          exact legs_drive_of_tearDown short (some e) now
      | false =>
          have ignores := ignores_of_rejected accepted now
          simp only [Flow.call]
          generalize f.process e now = r at ignores
          cases ignores <;> exact short

end Flow

end Checked

namespace Course

section Checked

variable {build : Build} {script : Option String} {chains : Chains} {c : Course}

/-- Another course has come to the same flow, with the same stages started and the same commands
sent. -/
structure Matches (c d : Course) : Prop where
  flow : d.flow = c.flow
  plan : d.plan = c.plan
  begun : d.begun = c.begun
  postings : d.postings = c.postings

theorem Matches.then_ {d : Course} (same : c.Matches d) (off : c.flow.leg? ≠ some .tearDown)
    (call : Call) : (c.then_ call).Matches (d.then_ call.checked) := by
  obtain ⟨called, started, loading⟩ := Flow.call_checked off call
  refine ⟨?_, ?_, ?_, ?_⟩
  · simp only [Course.then_, same.flow, called]
  · rw [plan_then_, plan_then_, same.flow, same.plan, loading]
  · rw [begun_then_, begun_then_, same.flow, same.begun, started]
  · rw [postings_then_, postings_then_, same.postings]
    simp only [Entry.postings, Entry.stage, entry, same.flow, same.begun, called, started]

/-- Up to tear-down a course is matched by one whose events are checked. -/
theorem Unchecked.checked (run : Unchecked build script chains c) :
    (∃ d, Of build script chains d ∧ c.Matches d) ∨ c.flow.legs <:+ [.tearDown] := by
  induction run with
  | start now => exact .inl ⟨_, .start now, rfl, rfl, rfl, rfl⟩
  | @step c run call later ih =>
      rcases ih with ⟨d, of, same⟩ | short
      · by_cases off : c.flow.leg? = some .tearDown
        · refine .inr (Flow.legs_call_of_tearDown ?_ later)
          have way := of.rests
          rw [same.flow] at way
          exact (way.on_tearDown off).1 ▸ List.suffix_refl _
        · exact .inl ⟨_, of.step _ (Call.legal_checked later), same.then_ off call⟩
      · exact .inr (Flow.legs_call_of_tearDown short later)

/-- On the run a course is matched by one whose events are checked. -/
theorem Unchecked.checked_of_run (run : Unchecked build script chains c)
    (on : c.flow.leg? = some .run) : ∃ d, Of build script chains d ∧ c.Matches d := by
  refine run.checked.resolve_right fun short => ?_
  have mem := short.subset (Flow.leg_mem_legs on)
  cases List.mem_singleton.1 mem

/-- The running stage remembers the tokens of the commands that went out for it, whatever events
the flow was handed. -/
theorem Unchecked.issued_iff (run : Unchecked build script chains c)
    (on : c.flow.leg? = some .run) (i : Nat) (t : Token) :
    c.flow.issuedFor i t = true ↔ Flow.Posted c.postings (c.begun.length - 1) i t := by
  obtain ⟨d, of, same⟩ := run.checked_of_run on
  rw [← same.flow, ← same.postings, ← same.begun]
  exact of.issued (same.flow ▸ on) i t

end Checked

end Course
end BuildPipeline
