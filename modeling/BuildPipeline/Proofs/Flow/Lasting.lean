import BuildPipeline.Proofs.Flow.Binding
import BuildPipeline.Proofs.Flow.Failing

/-!
What a flow waits on lasts. Behind the call that sends a command the command is waited on
(`Course.Of.waits_of_posted`), and it is waited on until it is answered, as long as the flow is not
aborted and has not ended (`Course.Of.waits_on`).
-/

namespace BuildPipeline

open Time (Moment)

namespace Flow

variable {plan : List Stage} {begun : Nat} {f : Flow} {e : Event} {t : Token} {now : Moment}

theorem mem_outstanding_of_lane {index : Nat} {lane : Lane} (lane_at : f.lanes[index]? = some lane)
    (awaited : lane.awaited = some t) : t ∈ f.outstanding :=
  mem_outstanding.2 (.inr ⟨lane, List.mem_of_getElem? lane_at, awaited⟩)

/-- What a flow on the run waits on it waits on in a lane. -/
theorem OnRun.lane_of_waits {past next : Nat} (on : OnRun plan past next f)
    (waits : t ∈ f.outstanding) :
    ∃ (index : Nat) (lane : Lane), f.lanes[index]? = some lane ∧ lane.awaited = some t := by
  rcases mem_outstanding.1 waits with step | ⟨lane, mem, awaited⟩
  · rw [on.step] at step
    cases step
  · rcases List.mem_iff_getElem?.1 mem with ⟨index, lane_at⟩
    exact ⟨index, lane, lane_at, awaited⟩

/-- A reply that a flow takes in leaves it waiting on whatever else it waits on. -/
theorem Rests.waits_on (rests : Rests plan begun f) (accepted : f.accepts e = true)
    (live : f.aborted = false) (waits : t ∈ f.outstanding) (other : t ≠ e.token) (now : Moment) :
    t ∈ (f.drive (some e) now).1.outstanding := by
  have only : f.lanes = [] → f.pendingStep = some e.token → False := by
    intro lanes step
    rcases mem_outstanding.1 waits with own | ⟨lane, mem, -⟩
    · exact other (Option.some.inj (own.symm.trans step))
    · rw [lanes] at mem
      cases mem
  rcases accepts_inv accepted with ⟨-, ⟨on, -, step⟩ | ⟨on, -, step⟩ | ⟨on, -, way⟩⟩
  · exact (only (rests.on_setup on).1.lanes step).elim
  · refine (only ?_ step).elim
    cases rests with
    | setup on' => rw [leg?_of_legs on'.legs] at on; cases on
    | run _ _ on' => rw [leg?_of_legs on'.legs] at on; cases on
    | tearDown _ _ _ lanes => exact lanes
    | finished _ _ _ lanes => exact lanes
  · obtain ⟨patch, lane, phase, lane_at, awaited⟩ := way
    obtain ⟨past, stage, at_, -, onRun, inside, -⟩ := rests.on_run on
    obtain ⟨index, sibling, sibling_at, waits'⟩ := onRun.lane_of_waits waits
    have apart : index ≠ patch.index := by
      rintro rfl
      cases sibling_at.symm.trans lane_at
      exact other (Option.some.inj (waits'.symm.trans awaited))
    obtain ⟨position, p, sent, -, settled, -, -, drive, -⟩ :=
      inside.stays onRun live at_ phase lane_at awaited apart sibling_at waits' now
    rcases settled.frame with ⟨-, -, -, -, -, -, lanes⟩
    rw [drive]
    exact mem_outstanding_of_lane ((lanes index apart).trans sibling_at) waits'

end Flow

namespace Course

variable {build : Build} {script : Option String} {chains : Chains} {c : Course} {call : Call}
  {p : Posting} {t : Token}

/-- What is waited on is waited on still behind a call that does not answer it. -/
theorem Of.waits_on (of : Of build script chains c) (legal : call.Legal)
    (live : c.flow.aborted = false) (waits : t ∈ c.flow.outstanding)
    (unanswered : ∀ e, (c.entry call).taken? = some e → t ≠ e.token) :
    t ∈ (c.then_ call).flow.outstanding := by
  have called := (of.rests.called legal).1
  change t ∈ (c.flow.call call).1.outstanding
  generalize c.flow.started call = started at called
  cases called with
  | idle touched =>
      rw [touched.frame]
      exact waits
  | answered e now call_eq accepted =>
      subst call_eq
      have driven := of.rests.waits_on accepted live waits
        (unanswered e (taken?_eq_some.2 ⟨now, rfl, accepted⟩)) now
      rwa [← Flow.process_of_accepted accepted] at driven

/-- A command that a call sends is waited on behind the call. -/
theorem Grows.waits_of_posted (grows : Grows chains c call) (sent : p ∈ (c.entry call).postings) :
    p.command.token ∈ (c.then_ call).flow.outstanding := by
  have walk := grows.walks p.line
  have mem : p ∈ (c.entry call).postings.filter (·.line = p.line) :=
    List.mem_filter.2 ⟨sent, by simp⟩
  generalize (c.entry call).postings.filter (·.line = p.line) = new at walk mem
  generalize c.flow.place c.begun.length p.line = before at walk
  generalize on : (c.then_ call).flow.place (c.then_ call).begun.length p.line = after at walk
  cases walk with
  | stay => cases mem
  | leave => cases mem
  | close => cases mem
  | first q =>
      obtain rfl := List.mem_singleton.1 mem
      exact Flow.mem_outstanding_of_place on
  | next _ _ q =>
      obtain rfl := List.mem_singleton.1 mem
      exact Flow.mem_outstanding_of_place on

end Course
end BuildPipeline
