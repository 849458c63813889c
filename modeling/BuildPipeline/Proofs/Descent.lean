import Mathlib.Order.WellFounded

/-!
Systems whose steps may be taken in any order. If two different steps that are open at the same time
can be taken one after the other, in either order and to the same effect, and no run goes on
forever, then all runs to the end are of one length and come to the same result
(`Descends.comes`). What the same result is may be read loosely, as long as the system cannot tell
alike states apart.
-/

namespace BuildPipeline

/-- A system that takes a step with a label wherever the step is open. -/
structure Machine (State Label : Type) where
  step : State → Label → Option State

namespace Machine

variable {State Label Weight : Type} {m : Machine State Label}

/-- A run of so many steps. -/
inductive Path (m : Machine State Label) : State → Nat → State → Prop
  | refl (a : State) : Path m a 0 a
  | head {a b c : State} {n : Nat} (l : Label) (step : m.step a l = some b) (rest : Path m b n c) :
      Path m a (n + 1) c

/-- No step is open. -/
def Done (m : Machine State Label) (a : State) : Prop :=
  ∀ l, m.step a l = none

/-- What a state comes to in the end, however the steps are taken. -/
structure Comes (m : Machine State Label) (alike : State → State → Prop) (a : State) (n : Nat)
    (result : State) : Prop where
  path : m.Path a n result
  done : m.Done result
  all : ∀ k b, m.Path a k b → k ≤ n ∧ (m.Done b ↔ k = n) ∧ (m.Done b → alike result b)

/-- The steps of the system commute up to `alike` in the states that `good` tells, and they
descend. -/
structure Descends (m : Machine State Label) (alike : State → State → Prop) (good : State → Prop)
    (weight : State → Weight) (lighter : Weight → Weight → Prop) : Prop where
  equivalence : Equivalence alike
  founded : WellFounded lighter
  keeps : ∀ {a b l}, good a → m.step a l = some b → good b
  falls : ∀ {a b l}, good a → m.step a l = some b → lighter (weight b) (weight a)
  follows : ∀ {a b c l}, alike a b → m.step a l = some c → ∃ d, m.step b l = some d ∧ alike c d
  commutes : ∀ {a b c k l}, good a → k ≠ l → m.step a k = some b → m.step a l = some c →
    ∃ d e, m.step b l = some d ∧ m.step c k = some e ∧ alike d e

theorem Path.snoc {a b c : State} {n : Nat} {l : Label} (path : m.Path a n b)
    (step : m.step b l = some c) : m.Path a (n + 1) c := by
  induction path with
  | refl a => exact .head l step (.refl c)
  | head l' step' rest ih => exact .head l' step' (ih step)

variable {alike : State → State → Prop} {good : State → Prop} {weight : State → Weight}
  {lighter : Weight → Weight → Prop}

theorem Comes.step {a b result other : State} {l : Label} {n k : Nat}
    (comes : m.Comes alike a n result) (step : m.step a l = some b)
    (rest : m.Comes alike b k other) : k + 1 = n ∧ alike result other := by
  rcases comes.all _ _ (.head l step rest.path) with ⟨-, length, ends⟩
  exact ⟨length.1 rest.done, ends rest.done⟩

section Descends

variable (descends : m.Descends alike good weight lighter)

include descends

theorem Descends.done {a b : State} (same : alike a b) (done : m.Done a) : m.Done b := by
  intro l
  cases step : m.step b l with
  | none => rfl
  | some c =>
      rcases descends.follows (descends.equivalence.symm same) step with ⟨d, step', -⟩
      rw [done l] at step'
      cases step'

theorem Descends.path {a b c : State} {n : Nat} (same : alike a b) (path : m.Path a n c) :
    ∃ d, m.Path b n d ∧ alike c d := by
  induction path generalizing b with
  | refl a => exact ⟨b, .refl b, same⟩
  | head l step rest ih =>
      rcases descends.follows same step with ⟨b', step', same'⟩
      rcases ih same' with ⟨d, path, end_⟩
      exact ⟨d, .head l step' path, end_⟩

/-- Alike states come to the same. -/
theorem Descends.unique {a b result other : State} {n k : Nat} (same : alike a b)
    (comes : m.Comes alike a n result) (comes' : m.Comes alike b k other) :
    n = k ∧ alike result other := by
  rcases descends.path same comes.path with ⟨d, path, end_⟩
  rcases comes'.all n d path with ⟨-, length, ends⟩
  have done := descends.done end_ comes.done
  exact ⟨length.1 done,
    descends.equivalence.trans end_ (descends.equivalence.symm (ends done))⟩

/-- Two first steps that commute come to the same. -/
theorem Descends.join {b c d e result other : State} {k l : Label} {n n' i j : Nat}
    {result' other' : State} (comes : m.Comes alike b n result) (comes' : m.Comes alike c n' other)
    (step : m.step b l = some d) (step' : m.step c k = some e) (same : alike d e)
    (rest : m.Comes alike d i result') (rest' : m.Comes alike e j other') :
    n = n' ∧ alike result other := by
  rcases comes.step step rest with ⟨rfl, left⟩
  rcases comes'.step step' rest' with ⟨rfl, right⟩
  rcases descends.unique same rest rest' with ⟨rfl, middle⟩
  exact ⟨rfl, descends.equivalence.trans (descends.equivalence.trans left middle)
    (descends.equivalence.symm right)⟩

/-- Every good state comes to one result, however the steps are taken. -/
theorem Descends.comes {a : State} (ok : good a) : ∃ n result, m.Comes alike a n result := by
  -- by induction on the weight; two first steps are joined by the steps that commute
  induction weight_eq : weight a using descends.founded.transGen.induction generalizing a with
  | _ w ih =>
      subst weight_eq
      by_cases finished : m.Done a
      · refine ⟨0, a, .refl a, finished, ?_⟩
        intro k b path
        cases path with
        | refl =>
            exact ⟨Nat.le_refl 0, ⟨fun _ => rfl, fun _ => finished⟩,
              fun _ => descends.equivalence.refl a⟩
        | head l step =>
            rw [finished l] at step
            cases step
      · have next : ∀ {l b}, m.step a l = some b → ∃ n result, m.Comes alike b n result :=
          fun step => ih _ (.single (descends.falls ok step)) (descends.keeps ok step) rfl
        have second : ∀ {k l b c}, m.step a k = some b → m.step b l = some c →
            ∃ n result, m.Comes alike c n result := by
          intro k l b c step step'
          have ok' := descends.keeps ok step
          exact ih _ (.tail (.single (descends.falls ok' step')) (descends.falls ok step))
            (descends.keeps ok' step') rfl
        obtain ⟨l, b, step⟩ : ∃ l b, m.step a l = some b := by
          simpa [Done, Option.ne_none_iff_exists'] using finished
        rcases next step with ⟨n, result, comes⟩
        have joins : ∀ {k c}, m.step a k = some c →
            ∃ other, m.Comes alike c n other ∧ alike result other := by
          intro k c step'
          by_cases same : l = k
          · subst same
            cases step.symm.trans step'
            exact ⟨result, comes, descends.equivalence.refl result⟩
          · rcases next step' with ⟨n', other, comes'⟩
            rcases descends.commutes ok same step step' with ⟨d, e, step_d, step_e, join⟩
            rcases second step step_d with ⟨_, _, rest⟩
            rcases second step' step_e with ⟨_, _, rest'⟩
            rcases descends.join comes comes' step_d step_e join rest rest' with ⟨rfl, alike_⟩
            exact ⟨other, comes', alike_⟩
        refine ⟨n + 1, result, .head l step comes.path, comes.done, ?_⟩
        intro k c path
        cases path with
        | refl =>
            exact ⟨Nat.zero_le _, ⟨fun done => absurd done finished, nofun⟩,
              fun done => absurd done finished⟩
        | head l' step' rest =>
            rcases joins step' with ⟨other, comes', same⟩
            rcases comes'.all _ c rest with ⟨le, length, ends⟩
            exact ⟨Nat.succ_le_succ le, length.trans (by omega),
              fun done => descends.equivalence.trans same (ends done)⟩

end Descends

end Machine
end BuildPipeline
