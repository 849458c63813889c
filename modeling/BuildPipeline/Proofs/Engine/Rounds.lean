import BuildPipeline.Proofs.Engine.Tending

/-!
No build stalls when commands have to be answered in time. If nothing happens any more but that the
time for an answer passes and deadlines fire, then every active flow whose build has a name ends:
after one round set-up and the run are over, and every round after that uses up one provider of
tear-down (`Engine.Reached.expires`).

A round brings every flow down because each command that it waits on has a deadline, and all of
these fire in one round (`Engine.Tended.round`).
-/

namespace BuildPipeline

open Time (Clock Moment Span)

section Idle

variable {plan : List Stage} {begun : Nat} {f : Flow}

theorem Flow.Rests.over_of_rounds (rests : f.Rests plan begun) (none_ : f.rounds = 0) :
    f.ended = true := by
  cases rests with
  | setup on =>
      rw [Flow.rounds_of_leg (Flow.leg?_of_legs on.legs) (by simp)] at none_
      cases none_
  | run _ _ on =>
      rw [Flow.rounds_of_leg (Flow.leg?_of_legs on.legs) (by simp)] at none_
      cases none_
  | tearDown legs =>
      rw [Flow.rounds_of_tearDown (Flow.leg?_of_legs legs)] at none_
      cases none_
  | finished _ ended => exact ended

variable {build : Build} {script : Option String} {chains : Chains} {c : Course}

/-- A flow of which no command is waited on has ended. -/
theorem Course.Of.over_of_unwaited (of : Course.Of build script chains c)
    (unwaited : ∀ p ∈ c.postings, p.command.token ∉ c.flow.outstanding) : c.flow.ended = true := by
  refine of.rests.over_of_idle (List.eq_nil_iff_forall_not_mem.2 fun t waits => ?_)
  rcases of.sent_of_waits waits with ⟨p, position, sent, rfl⟩
  exact unwaited p (Course.mem_sentOn.1 (List.mem_of_getElem? sent)).1 waits

/-- When all deadlines have come out that were set, all that a flow waits on is due. -/
theorem Flow.Tended.pressed {n limit limit' : Nat} {s s' : Deadlines} {due : List Deadline}
    {id : BuildId} (tended : f.Tended [] limit (n + 1) s chains id)
    (passed : ∀ d : Deadline, s.Has d → d.fireAt ≤ limit → d ∈ due) :
    f.Tended due limit' n s' chains id := by
  rcases tended.course with ⟨build, script, c, rfl, rfl, of, watched⟩
  refine ⟨tended.going, build, script, c, rfl, rfl, of, fun named => ?_⟩
  rcases watched named with ⟨kept, pressed⟩
  have all : ∀ p ∈ c.postings, p.command.token ∈ c.flow.outstanding →
      ∃ d ∈ due, d.For p.command := by
    intro p mem waits
    rcases kept p mem waits with none_ | ⟨d, for_, has | none_⟩
    · cases none_
    · exact ⟨d, passed d has.1 has.2, for_⟩
    · cases none_
  constructor
  · intro p mem waits
    rcases all p mem waits with ⟨d, now_, for_⟩
    exact .inr ⟨d, for_, .inr now_⟩
  · rcases pressed with few | ⟨-, -, none_⟩
    · exact .inr ⟨Nat.le_of_lt_succ few, rfl, all⟩
    · -- nothing was due before, so the flow would wait on nothing
      have finished := of.over_of_unwaited fun p mem waits => by
        rcases none_ p mem waits with ⟨d, now_, -⟩
        cases now_
      rw [tended.going] at finished
      cases finished

end Idle

namespace Engine

/-! ## Runs -/

/-- What an engine can be asked, and what can happen to it. -/
inductive Request where
  | start (id : BuildId) (build : Build) (script : Option String)
  | event (event : Event)
  | abort (id : BuildId)
  | delete (build : Build)
  | advance (by_ : Span)
  | fire
  | close (address : Address)

/-- The engine behind a request. A deletion does not touch it. -/
def serve (e : Engine) : Request → Engine
  | .start id build script => (e.start id build script).1
  | .event event => (e.onEvent event).1
  | .abort id => (e.abort id).1
  | .delete _ => e
  | .advance by_ => e.advance by_
  | .fire => e.fireDeadlines.1
  | .close address => e.close address

/-- The engines that come of a new one whose commands have to be answered within `timeout`. -/
inductive Reached (chains : Chains) (timeout : Span) : Engine → Prop
  | new (mailboxes : Mailboxes) (clock : Clock) :
      Reached chains timeout { chains, mailboxes, stepTimeout := some timeout, clock }
  | step {e : Engine} (reached : Reached chains timeout e) (r : Request) :
      Reached chains timeout (e.serve r)

/-- The time for an answer passes and deadlines fire. -/
def round (e : Engine) (timeout : Span) : Engine × List Act :=
  let (e, acts, _) := (e.advance timeout).fireDeadlines
  (e, acts)

/-- A number of rounds. -/
def rounds (e : Engine) (timeout : Span) : Nat → Engine × List Act
  | 0 => (e, [])
  | k + 1 =>
    let (e, acts) := e.round timeout
    let (e, more) := e.rounds timeout k
    (e, acts ++ more)

section Rounds

variable {chains : Chains} {timeout : Span} {n k : Nat} {e : Engine} {id : BuildId} {f : Flow}

theorem mem_activeFlows : id ∈ e.activeFlows ↔ ∃ f, e.flows.get? id = some f := by
  unfold activeFlows FlowTable.ids FlowTable.get?
  rw [List.mem_mergeSort]
  generalize e.flows.entries = entries
  induction entries with
  | nil => simp [Keyed.get?]
  | cons entry entries ih =>
      obtain ⟨key, g⟩ := entry
      by_cases own : key = id
      · simp [Keyed.get?, own]
      · rw [List.map_cons, List.mem_cons, ih]
        simp [Keyed.get?, own, Ne.symm own]

/-- Every engine that is reached tends its flows. -/
theorem Reached.tended (reached : Reached chains timeout e) :
    e.Tended timeout chains (chains.count .tearDown + 2) [] := by
  induction reached with
  | new mailboxes clock =>
      refine ⟨rfl, rfl, Deadlines.ordered_empty, fun id f at_ => ?_⟩
      cases at_
  | step reached r tended =>
      cases r with
      | start id build script => exact tended.start (Nat.le_refl _) id build script
      | event event =>
          exact (tended.onEvent event (.inr (Nat.le_refl _)) fun _ none_ => by cases none_).1
      | abort id => exact tended.abort id
      | delete build => exact tended
      | advance by_ => exact tended.advance by_
      | fire => exact tended.fireDeadlines
      | close address => exact tended.close address

/-- A round brings every flow nearer to its end. -/
theorem Tended.round (tended : e.Tended timeout chains (n + 1) []) :
    (e.round timeout).1.Tended timeout chains n [] ∧
      Carries e (e.round timeout).1 (e.round timeout).2 := by
  let polled := { e.advance timeout with deadlines := (e.deadlines.poll (e.limit timeout)).2 }
  have untouched : Carries e polled [] := .of_flows rfl
  have due : polled.Tended timeout chains n (e.deadlines.poll (e.limit timeout)).1 := by
    refine ⟨tended.set_, tended.chains_eq, tended.ordered.poll _, fun id f at_ => ?_⟩
    exact (tended.flows id f at_).pressed fun d has passed => has.fires tended.ordered passed
  rcases due.onEvents with ⟨after, carries⟩
  exact ⟨after, untouched.trans carries⟩

theorem Tended.rounds (k : Nat) (tended : e.Tended timeout chains (n + k) []) :
    (e.rounds timeout k).1.Tended timeout chains n [] ∧
      Carries e (e.rounds timeout k).1 (e.rounds timeout k).2 := by
  induction k generalizing e with
  | zero => exact ⟨tended, .of_flows rfl⟩
  | succ k ih =>
      rcases tended.round with ⟨next, carries⟩
      rcases ih next with ⟨last, onwards⟩
      exact ⟨last, carries.trans onwards⟩

/-- A flow that cannot last a round is not active. -/
theorem Tended.gone (tended : e.Tended timeout chains 1 []) (named : id.isBlank = false) :
    e.flows.get? id = none := by
  cases at_ : e.flows.get? id with
  | none => rfl
  | some f =>
      exfalso
      rcases tended.flows id f at_ with ⟨going, build, script, c, rfl, rfl, of, watched⟩
      have finished : c.flow.ended = true := by
        rcases (watched named).2 with few | ⟨-, -, all⟩
        · exact of.rests.over_of_rounds (Nat.lt_one_iff.1 few)
        · refine of.over_of_unwaited fun p mem waits => ?_
          rcases all p mem waits with ⟨d, none_, -⟩
          cases none_
      rw [going] at finished
      cases finished

/-- No build stalls. A flow that is active under a name ends within one round for each provider of
tear-down and one more, it leaves the engine, and its end is announced. -/
theorem Reached.expires (reached : Reached chains timeout e) (active : e.flows.get? id = some f)
    (named : id.isBlank = false) (enough : chains.count .tearDown + 1 ≤ k) :
    id ∉ (e.rounds timeout k).1.activeFlows ∧
      ∃ g, f.Becomes g ∧ g.ended = true ∧ g.build.id = id ∧
        .ended g.build ∈ (e.rounds timeout k).2 := by
  have tended : e.Tended timeout chains (1 + k) [] := reached.tended.mono (by omega)
  rcases tended.rounds with ⟨after, carries⟩
  have gone := after.gone named
  constructor
  · rw [mem_activeFlows]
    rintro ⟨g, at_⟩
    rw [gone] at at_
    cases at_
  · rcases carries.old id f active with ⟨g, becomes, at_ | ⟨-, told⟩⟩
    · rw [gone] at at_
      cases at_
    · exact ⟨g, becomes, told⟩

/-- An engine with a build of which nobody takes any command up. -/
def unanswered : Engine :=
  Engine.serve { chains := Course.shortChains, stepTimeout := some ⟨1⟩ }
    (.start ⟨"b"⟩ { id := ⟨"b"⟩, createdAt := Moment.origin } none)

theorem expires_unanswered : ∃ f, unanswered.flows.get? ⟨"b"⟩ = some f ∧ f.ended = false ∧
    ⟨"b"⟩ ∉ (unanswered.rounds ⟨1⟩ 1).1.activeFlows ∧
      ∃ g, f.Becomes g ∧ g.ended = true ∧ g.build.id = ⟨"b"⟩ ∧
        .ended g.build ∈ (unanswered.rounds ⟨1⟩ 1).2 := by
  have active : (unanswered.flows.get? ⟨"b"⟩).isSome = true := by cbv
  rcases Option.isSome_iff_exists.1 active with ⟨f, at_⟩
  have going : (unanswered.flows.get? ⟨"b"⟩).map (·.ended) = some false := by cbv
  rw [at_] at going
  refine ⟨f, at_, Option.some.inj going, ?_⟩
  exact Reached.expires (.step (.new {} {}) _) at_ (by decide) (by decide)

end Rounds

end Engine
end BuildPipeline
