import BuildPipeline.Flow.Progress
import Mathlib.Data.List.Nodup

/-!
Phases, lanes and stages. What a phase makes of its results is read off their shape, the results
follow the lane of the phase (`Lane.Fits`), and a plan lays its stages out over the phases of the
build without gaps or overlaps (`Laid`), so that a change within one stage is none in another
(`Laid.ne_of_stages`).
-/

namespace BuildPipeline

/-! ## Results -/

namespace Phase

theorem finalResult_of_pending {p : Phase} {n : Nat}
    (results : p.runResults = List.replicate n .done ++ [.inFlight]) :
    p.finalResult = .inFlight := by
  have first : (List.replicate n Status.done).find? isSetback = none := by
    rw [List.find?_eq_none]
    intro s mem
    rw [List.eq_of_mem_replicate mem]
    decide
  simp [finalResult, results, List.find?_append, first, isSetback]

theorem finalResult_of_failed {p : Phase} {n : Nat}
    (results : p.runResults = List.replicate n .done ++ [.failed]) :
    p.finalResult = .failed := by
  have first : (List.replicate n Status.done).find? isSetback = none := by
    rw [List.find?_eq_none]
    intro s mem
    rw [List.eq_of_mem_replicate mem]
    decide
  simp [finalResult, results, List.find?_append, first, isSetback]

theorem finalResult_of_passed {p : Phase} {n : Nat} (pos : 0 < n)
    (results : p.runResults = List.replicate n .done) : p.finalResult = .done := by
  have first : (List.replicate n Status.done).find? isSetback = none := by
    rw [List.find?_eq_none]
    intro s mem
    rw [List.eq_of_mem_replicate mem]
    decide
  have some_result : p.runResults.isEmpty = false := by
    rw [results, List.isEmpty_replicate]
    simp
    omega
  rw [finalResult, some_result, results, first]
  rfl

/-- Only the results decide. -/
theorem finalResult_congr {p q : Phase} (h : p.runResults = q.runResults) :
    p.finalResult = q.finalResult := by
  simp only [finalResult, h]

theorem runResults_finishRun_of_pending {p : Phase} {n : Nat} (s : Status)
    (results : p.runResults = List.replicate n .done ++ [.inFlight]) :
    (p.finishRun s).runResults = List.replicate n .done ++ [s] := by
  simp [finishRun, results]

end Phase

/-! ## Lanes -/

/-- How a phase stands to its lane. Every command but the last was answered with success; the last
one is waited on, or was answered with success at the end of the chain, or with failure. -/
inductive Lane.Fits (providers : Nat) (lane : Lane) (p : Phase) : Prop where
  | pending (token : Token) (awaited : lane.awaited = some token) (sent : 0 < lane.sent)
      (within : lane.sent ≤ providers)
      (results : p.runResults = List.replicate (lane.sent - 1) .done ++ [.inFlight])
  | passed (awaited : lane.awaited = none) (sent : 0 < lane.sent) (within : lane.sent = providers)
      (results : p.runResults = List.replicate providers .done)
  | failed (awaited : lane.awaited = none) (sent : 0 < lane.sent) (within : lane.sent ≤ providers)
      (results : p.runResults = List.replicate (lane.sent - 1) .done ++ [.failed])

namespace Lane.Fits

variable {providers : Nat} {lane : Lane} {p : Phase}

theorem sent_le (fits : lane.Fits providers p) : lane.sent ≤ providers := by
  cases fits with
  | pending _ _ _ within _ => exact within
  | passed _ _ within _ => exact Nat.le_of_eq within
  | failed _ _ within _ => exact within

theorem congr {q : Phase} (fits : lane.Fits providers p) (h : q.runResults = p.runResults) :
    lane.Fits providers q := by
  cases fits with
  | pending token awaited sent within results =>
      exact .pending token awaited sent within (h.trans results)
  | passed awaited sent within results => exact .passed awaited sent within (h.trans results)
  | failed awaited sent within results => exact .failed awaited sent within (h.trans results)

theorem isTerminal_iff (fits : lane.Fits providers p) :
    p.finalResult.isTerminal = true ↔ lane.awaited = none := by
  cases fits with
  | pending token awaited _ _ results =>
      simp [awaited, Phase.finalResult_of_pending results, Status.isTerminal]
  | passed awaited sent within results =>
      simp [awaited, Phase.finalResult_of_passed (within ▸ sent) results, Status.isTerminal]
  | failed awaited _ _ results =>
      simp [awaited, Phase.finalResult_of_failed results, Status.isTerminal]

end Lane.Fits

/-! ## Stages -/

namespace Stage

/-- What every phase of a stage satisfies. -/
def Holds (s : Stage) (all : List Phase) (P : Phase → Prop) : Prop :=
  ∀ position ∈ s.members, ∀ p, all[position]? = some p → P p

theorem isComplete_iff {s : Stage} {all : List Phase} :
    s.isComplete all = true ↔ s.Holds all (·.finalResult.isTerminal = true) := by
  simp only [isComplete, phases, List.all_eq_true, List.mem_filterMap, Holds]
  grind

theorem isSuccessful_iff {s : Stage} {all : List Phase} :
    s.isSuccessful all = true ↔ s.Holds all (·.finalResult = .done) := by
  simp only [isSuccessful, phases, List.all_eq_true, List.mem_filterMap, Holds, beq_iff_eq]
  grind

theorem Holds.mono {s : Stage} {all : List Phase} {P Q : Phase → Prop} (h : s.Holds all P)
    (imp : ∀ p, P p → Q p) : s.Holds all Q :=
  fun position mem p at_ => imp p (h position mem p at_)

/-- Phases that are as they were satisfy what they did. -/
theorem Holds.congr {s : Stage} {all others : List Phase} {P : Phase → Prop} (h : s.Holds all P)
    (same : ∀ position ∈ s.members, others[position]? = all[position]?) : s.Holds others P := by
  intro position mem p at_
  exact h position mem p (same position mem ▸ at_)

end Stage

/-- A plan covers the phases of the build one by one. Without a plan the build may have any
phases. -/
def Laid (plan : List Stage) (all : List Phase) : Prop :=
  plan = [] ∨ plan.flatMap (·.members) = List.range all.length

namespace Laid

variable {plan : List Stage} {all : List Phase}

theorem congr {others : List Phase} (laid : Laid plan all) (h : others.length = all.length) :
    Laid plan others := by
  unfold Laid
  rw [h]
  exact laid

theorem covers (laid : Laid plan all) {n : Nat} {s : Stage} (at_ : plan[n]? = some s) :
    plan.flatMap (·.members) = List.range all.length := by
  rcases laid with none_ | covers
  · simp [none_] at at_
  · exact covers

theorem lt_of_mem (laid : Laid plan all) {n : Nat} {s : Stage} (at_ : plan[n]? = some s)
    {position : Nat} (mem : position ∈ s.members) : position < all.length := by
  rw [← List.mem_range, ← laid.covers at_, List.mem_flatMap]
  exact ⟨s, List.mem_of_getElem? at_, mem⟩

theorem nodup (laid : Laid plan all) {n : Nat} {s : Stage} (at_ : plan[n]? = some s) :
    s.members.Nodup := by
  have nodup : (plan.flatMap (·.members)).Nodup := by
    rw [laid.covers at_]
    exact List.nodup_range
  exact (List.nodup_flatMap.1 nodup).1 s (List.mem_of_getElem? at_)

/-- Different stages share no position. -/
theorem ne_of_stages (laid : Laid plan all) {m n : Nat} {s t : Stage} (hs : plan[m]? = some s)
    (ht : plan[n]? = some t) (ne : m ≠ n) {x y : Nat} (hx : x ∈ s.members) (hy : y ∈ t.members) :
    x ≠ y := by
  have nodup : (plan.flatMap (·.members)).Nodup := by
    rw [laid.covers hs]
    exact List.nodup_range
  have apart := (List.nodup_flatMap.1 nodup).2
  rw [List.pairwise_iff_getElem] at apart
  rcases List.getElem?_eq_some_iff.1 hs with ⟨hm, rfl⟩
  rcases List.getElem?_eq_some_iff.1 ht with ⟨hn, rfl⟩
  rintro rfl
  rcases Nat.lt_or_gt_of_ne ne with lt | gt
  · exact apart m n hm hn lt hx hy
  · exact apart n m hn hm gt hy hx

end Laid

namespace Flow

theorem members_consecutive (first : Nat) (sizes : List Nat) :
    (consecutive first sizes).flatMap (·.members) =
      List.range' first (sizes.foldr (· + ·) 0) := by
  induction sizes generalizing first with
  | nil => rfl
  | cons size sizes ih =>
      simp only [consecutive, List.flatMap_cons, ih, List.foldr_cons]
      exact List.range'_append_1

/-- Each stage begins behind the stages before it. -/
theorem getElem?_consecutive (first : Nat) (sizes : List Nat) (n : Nat) :
    (consecutive first sizes)[n]? =
      sizes[n]?.map fun size => ⟨List.range' (first + (sizes.take n).foldr (· + ·) 0) size⟩ := by
  induction sizes generalizing first n with
  | nil => rfl
  | cons size sizes ih =>
      cases n with
      | zero => rfl
      | succ n =>
          rw [consecutive, List.getElem?_cons_succ, List.getElem?_cons_succ, ih,
            List.take_succ_cons, List.foldr_cons, Nat.add_assoc]

/-- The plan of stages that are loaded has a place for every phase. -/
theorem covers_consecutive (stages : List (List Phase)) :
    (consecutive 0 (stages.map List.length)).flatMap (·.members) =
      List.range (stages.flatten.map fresh).length := by
  rw [members_consecutive, List.length_map, List.length_flatten, List.range_eq_range']
  rfl

theorem laid_consecutive (stages : List (List Phase)) :
    Laid (consecutive 0 (stages.map List.length)) (stages.flatten.map fresh) :=
  .inr (covers_consecutive stages)

end Flow
end BuildPipeline
