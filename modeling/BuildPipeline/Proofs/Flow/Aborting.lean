import BuildPipeline.Proofs.Flow.Failing
import BuildPipeline.Proofs.Flow.Way

/-!
What an abort does and what can still happen behind it. The abort itself only marks the flow and
its build (`Flow.Cancels`). From then on the build is left alone but for the containers of the
running stage, nothing but tear-down is commanded, and the flow ends with a number of replies that
is settled when it is aborted (`Course.AfterAbort`), whatever they say.

An aborted flow takes a reply in by going on to tear-down, or along it, so that every reply brings
down `Flow.rounds` by one (`Flow.abortedReply_drive`).
-/

namespace BuildPipeline

open Time (Moment)

/-- The phase without its container. -/
def Phase.detached (p : Phase) : Phase :=
  { p with containerId := none, containerHost := none, containerPort := none }

namespace Flow

/-- The phase at a position is of the stage that is running. -/
def Running (f : Flow) (position : Nat) : Prop :=
  f.leg? = some .run ∧ ∃ stage ∈ f.stages.head?, position ∈ stage.members

/-- What the first abort of a flow does: the flow `g` behind it and the containers that it gives. -/
structure Cancels (f : Flow) (now : Moment) (g : Flow) (killed : List String) : Prop where
  build : g.build =
    { f.build with
      status := .canceled
      endDate := some now
      phases := f.build.phases.map fun p =>
        if p.status.isTerminal then p else { p with status := .canceled } }
  frame : g = { f with aborted := true, build := g.build }
  waits : g.outstanding = f.outstanding
  killed : killed = ((f.build.phases.filter (!·.status.isTerminal)).filterMap
    (·.containerId)).filter (!Text.isBlank ·)

section Abort

variable {f g : Flow} {now : Moment}

theorem cancels_abort (live : f.aborted = false) (now : Moment) :
    f.Cancels now (f.abort now).1 (f.abort now).2 := by
  have first : f.abort now =
      ({ f with aborted := true, build := f.build.markAborted now },
        f.build.cancellableContainers) := by
    unfold abort
    rw [if_neg (by simp [live])]
  have phases : ∀ p : Phase,
      (if p.status.isCancellable = true then { p with status := .canceled } else p) =
        if p.status.isTerminal = true then p else { p with status := .canceled } := by
    intro p
    unfold Status.isCancellable
    cases p.status.isTerminal <;> rfl
  rw [first]
  refine ⟨?_, rfl, rfl, ?_⟩
  · simp only [Build.markAborted, Build.settlePhases, phases]
  · simp only [Build.cancellableContainers, Build.namedContainers, List.filterMap_map,
      Status.isCancellable]
    rfl

theorem abort_of_aborted (aborted : f.aborted = true) (now : Moment) : f.abort now = (f, []) :=
  if_pos aborted

end Abort

/-- An aborted flow takes a reply in. -/
structure AbortedReply (f : Flow) (effects : List Effect) (g : Flow) : Prop where
  build : g.build = f.build
  off : g.leg? ≠ some .run
  rounds : g.rounds + 1 = f.rounds
  kinds : ∀ m ∈ commands effects, m.kind = .tearDown

section AbortedReply

variable {f h : Flow} {torn : Nat} {leg : Leg} {rest : List Leg} {now : Moment} {t : Turn}

theorem TornDown.abortedReply (turn : TornDown h now t) (aborted : f.aborted = true)
    (legs : f.legs = [.tearDown]) (same : h = f ∨ h = f.clearStep) :
    t.goesOn = false ∧ AbortedReply f t.effects t.flow := by
  obtain ⟨build, legs', chains, count, aborted'⟩ : h.build = f.build ∧ h.legs = f.legs ∧
      h.chains = f.chains ∧ h.dispatched = f.dispatched ∧ h.aborted = f.aborted := by
    rcases same with rfl | rfl <;> exact ⟨rfl, rfl, rfl, rfl, rfl⟩
  have rounds := rounds_of_tearDown (leg?_of_legs legs)
  cases turn with
  | sent a next =>
      have more : f.dispatched < f.chains.count .tearDown := by
        rw [← count, ← chains]
        exact (List.getElem?_eq_some_iff.1 next).1
      have on : h.commanded.leg? = some .tearDown :=
        (congrArg List.head? legs').trans (leg?_of_legs legs)
      refine ⟨rfl, build, ?_, ?_, ?_⟩
      · intro run
        cases on.symm.trans run
      · change h.commanded.rounds + 1 = _
        rw [rounds, rounds_of_tearDown on, show h.commanded.chains = f.chains from chains,
          show h.commanded.dispatched = f.dispatched + 1 from congrArg (· + 1) count]
        omega
      · intro m mem
        rw [List.mem_singleton.1 mem]
        rfl
  | complete last live =>
      rw [aborted', aborted] at live
      cases live
  | ended last =>
      refine ⟨rfl, build, nofun, ?_, fun m mem => absurd mem List.not_mem_nil⟩
      rw [rounds, ← chains, ← count, Nat.sub_eq_zero_of_le last]
      rfl

/-- An aborted flow leaves set-up and the run at once. -/
theorem Stands.drops (stands : Stands f torn) (aborted : f.aborted = true)
    (legs : f.legs = leg :: rest) (ne : leg ≠ .tearDown) (o : Option Event) (now : Moment) :
    f.turn leg o now = .again f.leaveLeg [] ∧ f.leaveLeg.rounds = f.rounds ∧
      f.leaveLeg.legs ≠ [] := by
  refine ⟨turn_of_aborted aborted ne, ?_⟩
  have on := leg?_of_legs legs
  have way := stands.legs_eq on
  rw [rounds_of_leg on ne]
  cases leg with
  | setup =>
      have way' : f.leaveLeg.legs = [.run, .tearDown] := congrArg List.tail way
      rw [rounds_of_leg (leg?_of_legs way') (by decide), way']
      exact ⟨rfl, nofun⟩
  | run =>
      have way' : f.leaveLeg.legs = [.tearDown] := congrArg List.tail way
      rw [rounds_of_tearDown (leg?_of_legs way'), way']
      exact ⟨rfl, nofun⟩
  | tearDown => exact absurd rfl ne

/-- An aborted flow on tear-down goes on with it, whatever it is replied. -/
theorem abortedReply_tearDown (aborted : f.aborted = true) (legs : f.legs = [.tearDown])
    (o : Option Event) :
    (f.turn .tearDown o now).goesOn = false ∧
      AbortedReply f (f.turn .tearDown o now).effects (f.turn .tearDown o now).flow := by
  rw [turn_tearDown]
  cases o with
  | none => exact (tornDown f now).abortedReply aborted legs (.inl rfl)
  | some e =>
      have idle : f.clearStep.takeStep e now = (f.clearStep, [], true) := if_pos aborted
      simp only [tearDownTurn, idle]
      exact (tornDown f.clearStep now).abortedReply aborted legs (.inr rfl)

theorem abortedReply_drive (stands : Stands f torn) (aborted : f.aborted = true)
    (going : f.legs ≠ []) (o : Option Event) (now : Moment) :
    AbortedReply f (f.drive o now).2 (f.drive o now).1 := by
  fun_induction drive f o now with
  | case1 f o none_ => exact absurd none_ going
  | case2 f o leg rest legs goesOn g effects driven ih =>
      have ne : leg ≠ .tearDown := by
        rintro rfl
        have way := stands.legs_eq (leg?_of_legs legs)
        rw [(abortedReply_tearDown aborted way o).1] at goesOn
        cases goesOn
      obtain ⟨turned, rounds, further⟩ := stands.drops aborted legs ne o now
      rw [turned] at driven ih ⊢
      have next := ih (stands.leaveLeg legs ne) aborted further
      rw [driven] at next
      exact ⟨next.build, next.off, next.rounds.trans rounds, next.kinds⟩
  | case3 f o leg rest legs waits =>
      have last : leg = .tearDown := by
        apply Classical.byContradiction
        intro ne
        rw [turn_of_aborted aborted ne] at waits
        exact waits rfl
      subst last
      exact (abortedReply_tearDown aborted (stands.legs_eq (leg?_of_legs legs)) o).2

theorem Stands.ended_iff (stands : Stands f torn) : f.ended = true ↔ f.rounds = 0 := by
  cases stands with
  | setup legs going =>
      rw [going, rounds_of_leg (leg?_of_legs legs) (by decide)]
      exact ⟨nofun, nofun⟩
  | run legs going =>
      rw [going, rounds_of_leg (leg?_of_legs legs) (by decide)]
      exact ⟨nofun, nofun⟩
  | tearDown legs going =>
      rw [going, rounds_of_tearDown (leg?_of_legs legs)]
      exact ⟨nofun, nofun⟩
  | finished legs ended => exact ⟨fun _ => rounds_of_over legs, fun _ => ended⟩

end AbortedReply

end Flow

namespace Course

/-- The course `d` goes on from `c` with some more entries. -/
inductive Continues (c : Course) : List Entry → Course → Prop
  | refl : Continues c [] c
  | step {future : List Entry} {d : Course} (continues : Continues c future d) (call : Call)
      (later : call.Later) : Continues c (future ++ [d.entry call]) (d.then_ call)

/-- What still becomes of a flow `g` that was just aborted, when so many replies are left to be
accepted. Behind the entries `future` the flow is `h`. -/
structure AfterAbort (g : Flow) (left : Nat) (future : List Entry) (h : Flow) : Prop where
  again : ∀ now, h.abort now = (h, [])
  build : h.build = { g.build with phases := h.build.phases }
  phases : h.build.phases.map (·.detached) = g.build.phases.map (·.detached)
  others : ∀ position, ¬g.Running position →
    h.build.phases[position]? = g.build.phases[position]?
  kinds : ∀ n ∈ future, ∀ m ∈ BuildPipeline.commands n.effects, m.kind = .tearDown
  within : (taken future).length ≤ left
  ends : h.ended = true ↔ (taken future).length = left

section SinceAbort

variable {build : Build} {script : Option String} {chains : Chains} {c d : Course} {call : Call}
  {future : List Entry} {g h : Flow} {torn : Nat}

/-- What carries a flow that was aborted on to its end. -/
structure SinceAbort (g : Flow) (future : List Entry) (h : Flow) : Prop where
  aborted : h.aborted = true
  stands : ∃ torn, h.Stands torn
  build : h.build = { g.build with phases := h.build.phases }
  phases : h.build.phases.map (·.detached) = g.build.phases.map (·.detached)
  others : ∀ position, ¬g.Running position →
    h.build.phases[position]? = g.build.phases[position]?
  queue : h.leg? = some .run → g.leg? = some .run ∧ h.stages = g.stages
  kinds : ∀ n ∈ future, ∀ m ∈ BuildPipeline.commands n.effects, m.kind = .tearDown
  rounds : h.rounds + (taken future).length = g.rounds

theorem map_detached_modify (phases : List Phase) (position : Nat) (patch : PhasePatch) :
    (phases.modify position (·.applyContainer patch)).map (·.detached) =
      phases.map (·.detached) := by
  refine List.ext_getElem? fun i => ?_
  rw [List.getElem?_map, List.getElem?_map, List.getElem?_modify]
  split
  · cases phases[i]? <;> rfl
  · rw [Option.map_eq_map, Option.map_id_fun', id]

theorem SinceAbort.refl (aborted : g.aborted = true) (stands : g.Stands torn) : SinceAbort g [] g :=
  ⟨aborted, ⟨torn, stands⟩, rfl, rfl, fun _ _ => rfl, fun on => ⟨on, rfl⟩,
    fun _ mem => absurd mem List.not_mem_nil, rfl⟩

theorem SinceAbort.silent {n : Entry} (since : SinceAbort g future h) (taken_ : n.taken? = none)
    (effects : n.effects = []) : SinceAbort g (future ++ [n]) h := by
  refine { since with kinds := fun m mem => ?_, rounds := ?_ }
  · rcases List.mem_append.1 mem with old | new
    · exact since.kinds m old
    · rw [List.mem_singleton.1 new, effects]
      exact fun m mem => absurd mem List.not_mem_nil
  · rw [taken_concat, taken_, Option.toList_none, List.append_nil]
    exact since.rounds

/-- The container of a phase of the running stage may change. -/
theorem SinceAbort.update {n : Entry} (since : SinceAbort g future h) (taken_ : n.taken? = none)
    (silent : BuildPipeline.commands n.effects = []) {position : Nat} {patch : PhasePatch}
    {stage : Stage} (on : h.leg? = some .run) (head : h.stages.head? = some stage)
    (member : position ∈ stage.members) :
    SinceAbort g (future ++ [n]) (h.modifyPhase position (·.applyContainer patch)) := by
  obtain ⟨on', stages⟩ := since.queue on
  obtain ⟨torn, stands⟩ := since.stands
  refine ⟨since.aborted, ⟨torn, stands.congr rfl rfl rfl rfl⟩, ?_, ?_, fun other idle => ?_,
    since.queue, fun m mem => ?_, ?_⟩
  · exact congrArg (fun b : Build => { b with
      phases := b.phases.modify position (·.applyContainer patch) }) since.build
  · rw [← since.phases]
    exact map_detached_modify h.build.phases position patch
  · have ne : position ≠ other := by
      rintro rfl
      exact idle ⟨on', stage, stages ▸ head, member⟩
    rw [← since.others other idle]
    exact List.getElem?_modify_ne _ _ ne
  · rcases List.mem_append.1 mem with old | new
    · exact since.kinds m old
    · rw [List.mem_singleton.1 new, silent]
      exact fun m mem => absurd mem List.not_mem_nil
  · rw [taken_concat, taken_, Option.toList_none, List.append_nil]
    exact since.rounds

/-- A reply takes the flow on, or ends it. -/
theorem SinceAbort.reply {n : Entry} {e : Event} {effects : List Effect} {h' : Flow}
    (since : SinceAbort g future h) (taken_ : n.taken? = some e) (own : n.effects = effects)
    (aborted : h'.aborted = true) (stands : h'.Stands torn)
    (reply : Flow.AbortedReply h effects h') :
    SinceAbort g (future ++ [n]) h' := by
  refine ⟨aborted, ⟨torn, stands⟩, ?_, ?_, ?_, fun on => absurd on reply.off, ?_, ?_⟩
  · rw [reply.build]
    exact since.build
  · rw [reply.build]
    exact since.phases
  · rw [reply.build]
    exact since.others
  · intro m mem
    rcases List.mem_append.1 mem with old | new
    · exact since.kinds m old
    · rw [List.mem_singleton.1 new, own]
      exact reply.kinds
  · rw [taken_concat, taken_, ← since.rounds, ← reply.rounds, Option.toList_some,
      List.length_append, List.length_singleton]
    omega

theorem SinceAbort.then_ (since : SinceAbort g future d.flow) (call : Call) (later : call.Later) :
    SinceAbort g (future ++ [d.entry call]) (d.then_ call).flow := by
  obtain ⟨torn, stands⟩ := since.stands
  cases call with
  | start => exact later.elim
  | abort now =>
      have same := Flow.abort_of_aborted since.aborted now
      change SinceAbort _ _ (d.flow.abort now).1
      rw [same]
      exact since.silent rfl rfl
  | process e now =>
      cases accepted : d.flow.accepts e with
      | true =>
          have going : d.flow.legs ≠ [] := by
            rcases Flow.accepts_inv accepted with ⟨-, on⟩
            intro none_
            simp [Flow.leg?, none_] at on
          have driven : d.flow.process e now = d.flow.drive (some e) now :=
            Flow.process_of_accepted accepted
          have reply := Flow.abortedReply_drive stands since.aborted going (some e) now
          have stands' := stands.drive (some e) now
          have aborted := (Flow.steady_drive d.flow (some e) now).aborted.trans since.aborted
          rw [← driven] at reply stands' aborted
          exact since.reply (taken?_eq_some.2 ⟨now, rfl, accepted⟩) rfl aborted stands' reply
      | false =>
          have taken_ : (d.entry (.process e now)).taken? = none :=
            if_neg (by simp [entry, accepted])
          have ignores := Flow.ignores_of_rejected accepted now
          generalize result : d.flow.process e now = r at ignores
          have effects : (d.entry (.process e now)).effects = r.2 := congrArg Prod.snd result
          change SinceAbort _ _ (d.flow.process e now).1
          rw [result]
          cases ignores with
          | same => exact since.silent taken_ effects
          | updates position patch stage on head member =>
              exact since.update taken_ (congrArg BuildPipeline.commands effects) on head member

theorem Continues.since (continues : Continues c future d) (aborted : c.flow.aborted = true)
    (stands : c.flow.Stands torn) : SinceAbort c.flow future d.flow := by
  induction continues with
  | refl => exact .refl aborted stands
  | step _ call later since => exact since.then_ call later

theorem Unchecked.chains_eq (run : Unchecked build script chains c) : c.flow.chains = chains := by
  induction run with
  | start now => exact chains_call _ (.start now)
  | step _ call _ same => exact (chains_call _ call).trans same

/-- How many replies a flow takes in from an abort to its end: one for the leg that it is on, where
this is not tear-down, and one for every command of tear-down that it has not been replied to. -/
def repliesLeft (chains : Chains) (c : Course) : Nat :=
  if c.flow.leg? = some .tearDown then chains.count .tearDown - tearDowns c.commands + 1
  else chains.count .tearDown + 1

theorem Unchecked.rounds_eq (run : Unchecked build script chains c)
    (going : c.flow.ended = false) : c.flow.rounds = repliesLeft chains c := by
  have stands := run.stands
  generalize own : tearDowns c.commands = torn at stands
  unfold repliesLeft
  rw [own, ← run.chains_eq]
  cases stands with
  | setup legs =>
      have on := Flow.leg?_of_legs legs
      rw [Flow.rounds_of_leg on (by decide), if_neg (by simp [on])]
  | run legs =>
      have on := Flow.leg?_of_legs legs
      rw [Flow.rounds_of_leg on (by decide), if_neg (by simp [on])]
  | tearDown legs =>
      have on := Flow.leg?_of_legs legs
      rw [Flow.rounds_of_tearDown on, if_pos on]
  | finished _ ended =>
      rw [going] at ended
      cases ended

/-- Abort is sticky, lazy and idempotent. -/
theorem Unchecked.cancellation (run : Unchecked build script chains c)
    (going : c.flow.ended = false)
    (live : c.flow.aborted = false) (now : Moment) :
    c.flow.Cancels now (c.flow.abort now).1 (c.flow.abort now).2 ∧
      (c.flow.leg? = some .tearDown → tearDowns c.commands ≤ chains.count .tearDown) ∧
      ∀ future d, Continues (c.then_ (.abort now)) future d →
        AfterAbort (c.flow.abort now).1 (repliesLeft chains c) future d.flow := by
  have cancels := Flow.cancels_abort live now
  have stands := run.stands
  refine ⟨cancels, fun on => ?_, fun future d continues => ?_⟩
  · generalize tearDowns c.commands = torn at stands
    have legs := stands.legs_eq on
    cases stands with
    | setup => exact Nat.zero_le _
    | run => exact Nat.zero_le _
    | tearDown _ _ within => exact run.chains_eq ▸ within
    | finished legs' => cases legs'.symm.trans legs
  · have frame := cancels.frame
    have aborted : (c.flow.abort now).1.aborted = true := congrArg (·.aborted) frame
    have rounds : (c.flow.abort now).1.rounds = repliesLeft chains c := by
      rw [← run.rounds_eq going, frame]
      rfl
    have since : SinceAbort (c.flow.abort now).1 future d.flow :=
      continues.since aborted (stands.call (.abort now))
    obtain ⟨torn, stands'⟩ := since.stands
    have count := since.rounds
    rw [rounds] at count
    refine ⟨Flow.abort_of_aborted since.aborted, since.build, since.phases, since.others,
      since.kinds, by omega, ?_⟩
    rw [stands'.ended_iff]
    omega

/-- A build of one phase, which is under way, with one provider of tear-down. -/
def underWay : Course :=
  let id : BuildId := ⟨"b"⟩
  let chains : Chains := { shortChains with tearDown := [⟨.tearDown, 0, 0⟩] }
  let begun := (idle { id, createdAt := Moment.origin } none chains).then_ (.start Moment.origin)
  begun.then_ (.process
    { kind := .setupEnd, buildId := id, token := ⟨1⟩, stages := some [[{ id := "p" }]] }
    Moment.origin)

theorem unchecked_underWay :
    Unchecked { id := ⟨"b"⟩, createdAt := Moment.origin } none
      { shortChains with tearDown := [⟨.tearDown, 0, 0⟩] } underWay :=
  .step (.start Moment.origin) _ trivial

/-- The reply with a token, which reports a failure. -/
def failure (kind : EventKind) (token : Token) : Call :=
  .process
    { kind, buildId := ⟨"b"⟩, token, statusCode := 500, phase := some ⟨0, none, none, none⟩ }
    Moment.origin

theorem cancellation_underWay :
    underWay.flow.ended = false ∧ underWay.flow.aborted = false ∧
      underWay.flow.leg? = some .run ∧
      ∃ future d, Continues (underWay.then_ (.abort Moment.origin)) future d ∧
        (taken future).length = 2 ∧ d.flow.ended = true ∧
        AfterAbort (underWay.flow.abort Moment.origin).1 2 future d.flow := by
  have going : underWay.flow.ended = false := by cbv
  have live : underWay.flow.aborted = false := by cbv
  have continues := (Continues.refl (c := underWay.then_ (.abort Moment.origin))).step
    (failure .phaseEnd ⟨2⟩) trivial |>.step (failure .tearDownEnd ⟨3⟩) trivial
  have all := Unchecked.cancellation unchecked_underWay going live Moment.origin
  have reply := all.2.2 _ _ continues
  have two : repliesLeft { shortChains with tearDown := [⟨.tearDown, 0, 0⟩] } underWay = 2 := by
    cbv
  rw [two] at reply
  exact ⟨going, live, by cbv, _, _, continues, by cbv, reply.ends.2 (by cbv), reply⟩

end SinceAbort

end Course
end BuildPipeline
