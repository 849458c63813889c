import BuildPipeline.Proofs.Flow.Lines

/-!
What the commands that one call sends have in common: they are of the build of the flow and of the
leg that it is on behind the call, those of the run and no others name a phase, and they take the
tokens that come next, one after the other (`Sending`).
-/

namespace BuildPipeline

open Time (Moment)

namespace Flow

/-- The commands that go out while a flow `f` becomes `g`. -/
structure Sending (f g : Flow) (sent : List (Address × Command)) : Prop where
  tokens : sent.map (·.2.token.number) = List.range' (f.minted + 1) sent.length
  minted : g.minted = f.minted + sent.length
  legs : ∀ s ∈ sent, g.leg? = some s.2.kind.leg
  phases : ∀ s ∈ sent, s.2.phase.isSome = true ↔ s.2.kind = .runPhase
  ids : ∀ s ∈ sent, s.2.build.id = g.build.id

section Sending

variable {plan : List Stage} {begun : Nat} {f g h : Flow} {effects : List Effect}
  {started : List Stage} {e : Event} {now : Moment} {call : Call}

theorem Sending.none (minted : g.minted = f.minted) : Sending f g [] :=
  ⟨rfl, minted, by simp, by simp, by simp⟩

theorem Sending.congr {sent : List (Address × Command)} (sending : Sending h g sent)
    (minted : h.minted = f.minted) : Sending f g sent := by
  refine ⟨?_, ?_, sending.legs, sending.phases, sending.ids⟩
  · rw [← minted]
    exact sending.tokens
  · rw [← minted]
    exact sending.minted

/-- One command with the next token. -/
theorem Sending.one {a : Address} {c : Command} (minted : g.minted = f.minted + 1)
    (token : c.token = ⟨f.minted + 1⟩) (leg : g.leg? = some c.kind.leg)
    (phase : c.phase.isSome = true ↔ c.kind = .runPhase) (id : c.build.id = g.build.id) :
    Sending f g [(a, c)] := by
  refine ⟨?_, minted, ?_, ?_, ?_⟩
  · rw [List.map_singleton, token]
    rfl
  · intro s mem
    rw [List.mem_singleton.1 mem]
    exact leg
  · intro s mem
    rw [List.mem_singleton.1 mem]
    exact phase
  · intro s mem
    rw [List.mem_singleton.1 mem]
    exact id

theorem Sending.step {leg : Leg} {a : Address} (ne : leg ≠ .run) (on : h.leg? = some leg)
    (minted : h.minted = f.minted) :
    Sending f h.commanded [(a, h.stepCommand leg)] := by
  refine .one (congrArg (· + 1) minted) ?_ ?_ ?_ ?_
  · rw [← minted]
    cases leg <;> rfl
  · cases leg with
    | run => exact absurd rfl ne
    | setup => exact on
    | tearDown => exact on
  · cases leg with
    | run => exact absurd rfl ne
    | setup => simp [stepCommand, Command.setup]
    | tearDown => simp [stepCommand, Command.tearDown]
  · cases leg <;> rfl

theorem TornDown.sending {t : Turn} (turn : TornDown h now t) (legs : h.legs = [.tearDown])
    (minted : h.minted = f.minted) : Sending f t.flow (sends t.effects) := by
  cases turn with
  | sent a next => exact .step (by decide) (leg?_of_legs legs) minted
  | complete last live build eq => exact .none minted
  | ended last why => exact .none minted

theorem FanOut.sending {index : Nat} {positions : List Nat} {a : Address}
    (fan : FanOut f index positions a g effects) (on : g.leg? = some .run)
    (inside : ∀ position ∈ positions, position < f.build.phases.length) :
    Sending f g (sends effects) := by
  have at_ : ∀ (k : Nat) (s : Address × Command), (sends effects)[k]? = some s →
      s.2.token = ⟨f.minted + k + 1⟩ ∧ s.2.kind = .runPhase ∧ s.2.phase.isSome = true ∧
        s.2.build.id = g.build.id := by
    intro k s at_k
    rcases fan.commanded inside at_k with ⟨b, position, p, rfl, -, id, -⟩
    refine ⟨rfl, rfl, rfl, ?_⟩
    rw [fan.frame]
    exact id
  refine ⟨?_, ?_, ?_, ?_, ?_⟩
  · apply List.ext_getElem?
    intro k
    rw [List.getElem?_map]
    rcases Nat.lt_or_ge k (sends effects).length with lt | ge
    · rw [List.getElem?_range' lt, List.getElem?_eq_getElem lt, Option.map_some,
        (at_ k _ (List.getElem?_eq_getElem lt)).1]
      congr 1
      simp only
      omega
    · rw [List.getElem?_eq_none ge, List.getElem?_eq_none (by simpa using ge)]
      rfl
  · rw [fan.frame, fan.count]
  · intro s mem
    rcases List.mem_iff_getElem?.1 mem with ⟨k, at_k⟩
    rw [on, (at_ k s at_k).2.1]
    rfl
  · intro s mem
    rcases List.mem_iff_getElem?.1 mem with ⟨k, at_k⟩
    rcases at_ k s at_k with ⟨-, kind, phase, -⟩
    simp [kind, phase]
  · intro s mem
    rcases List.mem_iff_getElem?.1 mem with ⟨k, at_k⟩
    exact (at_ k s at_k).2.2.2

theorem Lands.sending (lands : Lands plan begun f effects started g) :
    Sending f g (sends effects) := by
  cases lands with
  | @step done started h leg ne a between on live count next =>
      rw [sends_append, between.silent]
      exact .step ne on between.minted
  | @stage done started h s a between live on at_ some_ head =>
      have head' : h.chains.address? .runPhase 0 = some a := between.steady.chains ▸ head
      rcases on.startStage live at_ head' with ⟨fan, onStage, -⟩
      have sending := fan.sending (leg?_of_legs onStage.legs)
        fun position mem => on.laid.lt_of_mem at_ mem
      rw [between.sends_startStage]
      exact sending.congr between.minted
  | @finished done started h build effects between on silent endless phases =>
      rw [sends_append, sends_append, between.silent, silent]
      exact .none between.minted

theorem Settled.sending {patch : PhasePatch} {position : Nat} {p : Phase} {lane : Lane}
    {sent : List (Address × Command)} (settled : Settled f e patch position p lane h sent)
    (on : f.leg? = some .run) : Sending f h sent := by
  cases settled with
  | failed => exact .none rfl
  | last => exact .none rfl
  | next a success next => exact .one rfl rfl on (by simp [Command.runPhase]) rfl

theorem Fed.sending {leg : Leg} {t : Turn} (fed : Fed f e now leg t) (rests : Rests plan begun f)
    (on : f.leg? = some leg) (waits : t.goesOn = false) :
    Sending f t.flow (sends t.effects) := by
  have way : leg = .tearDown → f.legs = [.tearDown] := by
    rintro rfl
    exact (rests.on_tearDown on).1
  cases fed with
  | dropped => cases waits
  | refused => cases waits
  | adopted live success t turn =>
      rcases adopt_frame f.clearStep e with ⟨legs, -, -, minted⟩
      cases turn with
      | left => cases waits
      | sent a next =>
          refine .step (by decide) ?_ minted
          rw [leg?, legs]
          exact on
  | phase stage rest patch lane position p live queue phase lane_at awaited place at_p fits _
      turn =>
      exact (turn.of_waits waits).1.sending on
  | pressedOn aborted t turn => exact turn.sending (way rfl) rfl
  | cleaned live success plain t turn =>
      rcases adopt_frame f.clearStep e with ⟨legs, -, -, minted⟩
      exact turn.sending (legs.trans (way rfl)) minted
  | failed live fails => exact .none rfl

theorem Called.sending (called : Called plan begun f call effects started g)
    (rests : Rests plan begun f) : Sending f g (sends effects) := by
  cases called with
  | idle touched none_ unanswered silent endless =>
      rw [silent]
      refine .none ?_
      rw [touched.frame]
  | answered e now call_eq accepted answered =>
      cases answered with
      | waits leg t eq on fed waits => exact fed.sending rests on waits
      | passes leg t eq on fed goesOn passes lands =>
          rcases fed.passing goesOn with ⟨silent, -, minted, -⟩
          rw [sends_append, silent, List.nil_append]
          exact lands.sending.congr minted

end Sending

end Flow
end BuildPipeline
