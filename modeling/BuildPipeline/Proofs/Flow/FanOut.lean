import BuildPipeline.Proofs.Flow.Effects
import BuildPipeline.Proofs.Flow.Stages

/-!
What the start of a stage does. With providers every phase of the stage gets one command, in the
order of the indexes and all at the head of the chain (`FanOut`, `fanOut_startPhases`); without
providers every phase is done at once and nothing is sent (`startPhases_of_no_provider`). Phases
outside the stage stay as they are.
-/

namespace BuildPipeline.Flow

/-- A phase that no provider is there for. -/
def skipped (index : Nat) (p : Phase) : Phase :=
  let q := (p.beginRun index).finishRun .done
  { q with status := q.finalResult }

theorem sent_of_lane {f : Flow} {index : Nat} {lane : Lane} (at_ : f.lanes[index]? = some lane) :
    f.sent index = lane.sent := by
  simp only [sent, progress?, at_, Option.bind_some]
  split <;> simp_all

theorem startPhase_of_no_provider {f : Flow} (index : Nat) {position : Nat}
    (inside : position < f.build.phases.length) (none_ : f.chains.count .runPhase = 0) :
    f.startPhase index position = (f.modifyPhase position (skipped index), []) := by
  simp only [startPhase, if_pos inside, if_pos none_, modifyPhase, List.modify_modify_eq]
  rfl

/-- The flow behind the command to the first provider of the phase at `position`. -/
def launched (f : Flow) (index position : Nat) : Flow :=
  { f.modifyPhase position (·.beginRun index) with
    lanes := f.lanes.modify index (Lane.command · f.nextToken)
    minted := f.minted + 1 }

section Launched

variable {f : Flow} {index position : Nat} {p : Phase}

theorem length_phases_launched :
    (f.launched index position).build.phases.length = f.build.phases.length :=
  List.length_modify ..

theorem phases_launched (at_ : f.build.phases[position]? = some p) :
    (f.launched index position).build.phases[position]? = some (p.beginRun index) := by
  simp [launched, modifyPhase, at_]

theorem phases_launched_of_ne {other : Nat} (ne : other ≠ position) :
    (f.launched index position).build.phases[other]? = f.build.phases[other]? :=
  List.getElem?_modify_ne _ _ ne.symm

theorem lanes_launched (lane : f.lanes[index]? = some {}) :
    (f.launched index position).lanes[index]? = some (Lane.command {} ⟨f.minted + 1⟩) := by
  simp [launched, lane, nextToken]

theorem lanes_launched_of_ne {i : Nat} (ne : i ≠ index) :
    (f.launched index position).lanes[i]? = f.lanes[i]? :=
  List.getElem?_modify_ne _ _ ne.symm

theorem startPhase_of_provider {a : Address} (head : f.chains.address? .runPhase 0 = some a)
    (at_ : f.build.phases[position]? = some p) (lane : f.lanes[index]? = some {}) :
    f.startPhase index position =
      (f.launched index position,
        [.dispatch a (.runPhase f.nextToken (f.launched index position).build
          (p.beginRun index))]) := by
  have inside : position < f.build.phases.length := (List.getElem?_eq_some_iff.1 at_).1
  have providers : f.chains.count .runPhase ≠ 0 := by
    intro none_
    rw [Chains.address?, List.getElem?_eq_none (Nat.le_of_eq none_)] at head
    cases head
  have sent : (f.modifyPhase position (·.beginRun index)).sent index = 0 := sent_of_lane lane
  have begun : (f.modifyPhase position (·.beginRun index)).build.phases[position]? =
      some (p.beginRun index) := phases_launched at_
  have head' : (f.modifyPhase position (·.beginRun index)).chains.address? .runPhase 0 = some a :=
    head
  simp only [startPhase, if_pos inside, if_neg providers, commandPhase, sent, begun, head']
  rfl

end Launched

theorem startPhases_of_no_provider (f : Flow) (index : Nat) {positions : List Nat}
    (none_ : f.chains.count .runPhase = 0) (nodup : positions.Nodup)
    (inside : ∀ position ∈ positions, position < f.build.phases.length) :
    ∃ all, f.startPhases index positions =
        ({ f with build := { f.build with phases := all } }, []) ∧
      all.length = f.build.phases.length ∧
      (∀ position, position ∉ positions → all[position]? = f.build.phases[position]?) ∧
      ∀ (k position : Nat) (p : Phase), positions[k]? = some position →
        f.build.phases[position]? = some p → all[position]? = some (skipped (index + k) p) := by
  induction positions generalizing f index with
  | nil => exact ⟨_, rfl, rfl, fun _ _ => rfl, by simp⟩
  | cons position positions ih =>
      rcases List.nodup_cons.1 nodup with ⟨fresh, nodup⟩
      have first := startPhase_of_no_provider index (inside position List.mem_cons_self) none_
      obtain ⟨all, rest, size, others, here⟩ :=
        ih (f.modifyPhase position (skipped index)) (index + 1) none_ nodup
          (fun other mem => by simpa [modifyPhase] using inside other (List.mem_cons_of_mem _ mem))
      refine ⟨all, ?_, ?_, ?_, ?_⟩
      · simp only [startPhases, first, rest, List.append_nil]
        rfl
      · simpa [modifyPhase] using size
      · intro other out
        have ne : position ≠ other := fun same => out (same ▸ List.mem_cons_self)
        rw [others other (fun mem => out (List.mem_cons_of_mem _ mem))]
        simp [modifyPhase, ne]
      · intro k other q at_ before
        cases k with
        | zero =>
            obtain rfl : position = other := by simpa using at_
            rw [others _ fresh]
            simp [modifyPhase, before]
        | succ k =>
            have mem : other ∈ positions := List.mem_of_getElem? (by simpa using at_)
            have ne : position ≠ other := fun same => fresh (same ▸ mem)
            rw [here k other q (by simpa using at_) (by simpa [modifyPhase, ne] using before),
              show index + 1 + k = index + (k + 1) by omega]

/-- The phases at some positions were started from `index` on, with their commands going to `a`. -/
structure FanOut (f : Flow) (index : Nat) (positions : List Nat) (a : Address) (g : Flow)
    (effects : List Effect) : Prop where
  frame : g = { f with
    build := { f.build with phases := g.build.phases }
    lanes := g.lanes
    minted := f.minted + positions.length }
  size : g.build.phases.length = f.build.phases.length
  others : ∀ position : Nat, position ∉ positions →
    g.build.phases[position]? = f.build.phases[position]?
  begun : ∀ (k position : Nat) (p : Phase),
    positions[k]? = some position → f.build.phases[position]? = some p →
    g.build.phases[position]? = some (p.beginRun (index + k))
  width : g.lanes.length = f.lanes.length
  earlier : ∀ i < index, g.lanes[i]? = f.lanes[i]?
  lanes : ∀ k < positions.length,
    g.lanes[index + k]? = some (Lane.command {} ⟨f.minted + k + 1⟩)
  count : (sends effects).length = positions.length
  endless : ends effects = []
  commands : ∀ (k position : Nat) (p : Phase),
    positions[k]? = some position → f.build.phases[position]? = some p →
    ∃ b : Build, (sends effects)[k]? =
        some (a, .runPhase ⟨f.minted + k + 1⟩ b (p.beginRun (index + k))) ∧
      b.id = f.build.id ∧ b.phases[position]? = some (p.beginRun (index + k)) ∧
      ∀ other : Nat, other ∉ positions → b.phases[other]? = f.build.phases[other]?

section FanOut

variable {f g : Flow} {index position : Nat} {positions : List Nat} {a : Address} {p : Phase}
  {effects : List Effect}

theorem FanOut.nil (f : Flow) (index : Nat) (a : Address) : FanOut f index [] a f [] :=
  ⟨rfl, rfl, fun _ _ => rfl, by simp, rfl, fun _ _ => rfl, by simp, rfl, rfl, by simp⟩

/-- One phase is started in front of the others. -/
theorem FanOut.cons (rest : FanOut (f.launched index position) (index + 1) positions a g effects)
    (fresh : position ∉ positions) (at_ : f.build.phases[position]? = some p)
    (lane : f.lanes[index]? = some {}) :
    FanOut f index (position :: positions) a g
      (.dispatch a (.runPhase f.nextToken (f.launched index position).build (p.beginRun index)) ::
        effects) := by
  have shift : ∀ k, index + 1 + k = index + (k + 1) := by omega
  have mint : ∀ k, f.minted + 1 + k + 1 = f.minted + (k + 1) + 1 := by omega
  -- a later phase is one of the rest, and is still as it was
  have later : ∀ {k other : Nat} {q : Phase}, (position :: positions)[k + 1]? = some other →
      f.build.phases[other]? = some q →
      positions[k]? = some other ∧
        (f.launched index position).build.phases[other]? = some q := by
    intro k other q at' before
    have mem : other ∈ positions := List.mem_of_getElem? (by simpa using at')
    have ne : other ≠ position := fun same => fresh (same ▸ mem)
    exact ⟨by simpa using at', (phases_launched_of_ne ne).trans before⟩
  refine ⟨?_, ?_, ?_, ?_, ?_, ?_, ?_, ?_, ?_, ?_⟩
  · have frame := rest.frame
    rw [frame]
    simp only [launched, modifyPhase, List.length_cons, Flow.mk.injEq, true_and]
    omega
  · exact rest.size.trans length_phases_launched
  · intro other out
    rw [rest.others other (List.not_mem_of_not_mem_cons out),
      phases_launched_of_ne (List.ne_of_not_mem_cons out)]
  · intro k other q at' before
    cases k with
    | zero =>
        obtain rfl : position = other := by simpa using at'
        obtain rfl : p = q := by simpa [at_] using before
        rw [rest.others _ fresh, phases_launched at_]
        rfl
    | succ k =>
        rcases later at' before with ⟨at', before⟩
        rw [rest.begun k other q at' before, shift]
  · exact rest.width.trans (List.length_modify ..)
  · intro i lt
    rw [rest.earlier i (by omega), lanes_launched_of_ne (Nat.ne_of_lt lt)]
  · intro k lt
    cases k with
    | zero => exact (rest.earlier index (Nat.lt_succ_self index)).trans (lanes_launched lane)
    | succ k =>
        have := rest.lanes k (by simpa using lt)
        rw [shift, show (f.launched index position).minted = f.minted + 1 from rfl, mint] at this
        exact this
  · simp [rest.count]
  · simp [rest.endless]
  · intro k other q at' before
    cases k with
    | zero =>
        obtain rfl : position = other := by simpa using at'
        obtain rfl : p = q := by simpa [at_] using before
        refine ⟨_, rfl, rfl, phases_launched at_, ?_⟩
        intro away out
        exact phases_launched_of_ne (List.ne_of_not_mem_cons out)
    | succ k =>
        rcases later at' before with ⟨at', before⟩
        rcases rest.commands k other q at' before with ⟨b, sent, id, at_b, away⟩
        rw [shift, show (f.launched index position).minted = f.minted + 1 from rfl, mint] at sent
        rw [shift] at at_b
        refine ⟨b, by simpa using sent, id, at_b, ?_⟩
        intro far out
        rw [away far (List.not_mem_of_not_mem_cons out),
          phases_launched_of_ne (List.ne_of_not_mem_cons out)]

/-- What every command of a fan-out says. -/
theorem FanOut.commanded (fan : FanOut f index positions a g effects)
    (inside : ∀ position ∈ positions, position < f.build.phases.length) {k : Nat}
    {s : Address × Command} (sent : (sends effects)[k]? = some s) :
    ∃ (b : Build) (position : Nat) (p : Phase),
      s = (a, .runPhase ⟨f.minted + k + 1⟩ b (p.beginRun (index + k))) ∧
      positions[k]? = some position ∧ b.id = f.build.id ∧
      b.phases[position]? = some (p.beginRun (index + k)) := by
  have lt : k < positions.length := by
    rw [← fan.count]
    exact (List.getElem?_eq_some_iff.1 sent).1
  have within := inside _ (List.getElem_mem lt)
  obtain ⟨b, command, id, at_b, -⟩ := fan.commands k _ _ (List.getElem?_eq_getElem lt)
    (List.getElem?_eq_getElem within)
  have same := Option.some.inj (sent.symm.trans command)
  exact ⟨b, _, _, same, List.getElem?_eq_getElem lt, id, at_b⟩

theorem fanOut_startPhases (f : Flow) (index : Nat) (head : f.chains.address? .runPhase 0 = some a)
    (nodup : positions.Nodup) (inside : ∀ position ∈ positions, position < f.build.phases.length)
    (width : f.lanes.length = index + positions.length)
    (idle : ∀ k < positions.length, f.lanes[index + k]? = some {}) :
    FanOut f index positions a (f.startPhases index positions).1
      (f.startPhases index positions).2 := by
  induction positions generalizing f index with
  | nil => exact .nil f index a
  | cons position positions ih =>
      rcases List.nodup_cons.1 nodup with ⟨fresh, nodup⟩
      obtain ⟨p, at_⟩ : ∃ p, f.build.phases[position]? = some p :=
        ⟨_, List.getElem?_eq_getElem (inside position List.mem_cons_self)⟩
      have lane : f.lanes[index]? = some {} := idle 0 (Nat.succ_pos _)
      have rest := ih (f.launched index position) (index + 1) head nodup
        (fun other mem =>
          length_phases_launched.symm ▸ inside other (List.mem_cons_of_mem _ mem))
        (by
          rw [launched, List.length_modify, width, List.length_cons]
          omega)
        (fun k lt => by
          rw [lanes_launched_of_ne (by omega), show index + 1 + k = index + (k + 1) by omega]
          exact idle (k + 1) (Nat.succ_lt_succ lt))
      simp only [startPhases, startPhase_of_provider head at_ lane, List.singleton_append]
      exact rest.cons fresh at_ lane

end FanOut

end BuildPipeline.Flow
