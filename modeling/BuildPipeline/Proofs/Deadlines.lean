import BuildPipeline.Deadline
import BuildPipeline.Heap.Order

/-!
What the operations on deadlines do to a deadline that is set. It stays set until its pair is
cancelled, or its build, or its time has come (`Has.schedule`, `Has.cancel`, `Has.cancelBuild`,
`Has.poll`), and it fires once its time has come (`Has.fires`).
-/

namespace BuildPipeline

namespace Deadline

theorem fireAt_le_of_le {a b : Deadline} (h : a.le b = true) : a.fireAt ≤ b.fireAt := by
  unfold le at h
  split at h
  · rename_i same
    exact Nat.le_of_eq same
  · exact Nat.le_of_lt (by simpa using h)

end Deadline

namespace Deadlines

/-- The deadline is set, and its pair is not marked. -/
structure Has (s : Deadlines) (d : Deadline) : Prop where
  set_ : d ∈ s.items.toList
  unmarked : d.key ∉ s.cancelled

/-- The heap is in order. -/
def Ordered (s : Deadlines) : Prop :=
  s.items.IsOrdered Deadline.le

variable {s : Deadlines} {d : Deadline} {now : Nat}

theorem ordered_empty : Ordered {} :=
  Heap.isOrdered_empty

/-! ## Setting and cancelling -/

theorem Ordered.schedule (ordered : s.Ordered) (other : Deadline) : (s.schedule other).Ordered :=
  Heap.isOrdered_push Deadline.le_total Deadline.le_trans ordered other

theorem has_schedule (s : Deadlines) (d : Deadline) : (s.schedule d).Has d := by
  refine ⟨?_, by simp [schedule]⟩
  exact (Heap.push_perm Deadline.le s.items d).mem_iff.2 List.mem_cons_self

theorem Has.schedule (has : s.Has d) (other : Deadline) : (s.schedule other).Has d := by
  refine ⟨?_, fun marked => has.unmarked ((List.mem_filter.1 marked).1)⟩
  exact (Heap.push_perm Deadline.le s.items other).mem_iff.2 (List.mem_cons_of_mem _ has.set_)

theorem items_cancel (s : Deadlines) (key : Deadline.Key) : (s.cancel key).items = s.items := by
  unfold cancel
  split <;> rfl

theorem Ordered.cancel (ordered : s.Ordered) (key : Deadline.Key) : (s.cancel key).Ordered := by
  unfold Ordered
  rw [items_cancel]
  exact ordered

theorem Has.cancel (has : s.Has d) {key : Deadline.Key} (ne : d.key ≠ key) :
    (s.cancel key).Has d := by
  refine ⟨items_cancel s key ▸ has.set_, ?_⟩
  unfold Deadlines.cancel
  split
  · exact List.not_mem_cons_of_ne_of_not_mem ne has.unmarked
  · exact has.unmarked

theorem ordered_cancelBuild (s : Deadlines) (id : BuildId) : (s.cancelBuild id).Ordered :=
  Heap.isOrdered_filter Deadline.le_total Deadline.le_trans _ s.items

theorem Has.cancelBuild (has : s.Has d) {id : BuildId} (ne : d.buildId ≠ id) :
    (s.cancelBuild id).Has d := by
  refine ⟨?_, fun marked => has.unmarked ((List.mem_filter.1 marked).1)⟩
  refine (Heap.filter_perm Deadline.le _ s.items).mem_iff.2 (List.mem_filter.2 ⟨has.set_, ?_⟩)
  simpa using ne

/-! ## Firing -/

theorem release_subset (cancelled : List Deadline.Key) (due : List Deadline) :
    (release cancelled due).2 ⊆ cancelled := by
  induction due generalizing cancelled with
  | nil => exact List.Subset.refl _
  | cons d due ih =>
      unfold release
      split
      · exact List.Subset.trans (ih _) List.filter_sublist.subset
      · exact ih cancelled

theorem mem_release {cancelled : List Deadline.Key} {due : List Deadline} (mem : d ∈ due)
    (unmarked : d.key ∉ cancelled) : d ∈ (release cancelled due).1 := by
  induction due generalizing cancelled with
  | nil => cases mem
  | cons other due ih =>
      unfold release
      split
      · rename_i marked
        rcases List.mem_cons.1 mem with rfl | later
        · exact absurd marked unmarked
        · exact ih later fun left => unmarked ((List.mem_filter.1 left).1)
      · rcases List.mem_cons.1 mem with rfl | later
        · exact List.mem_cons_self
        · exact List.mem_cons_of_mem _ (ih later unmarked)

theorem Ordered.poll (ordered : s.Ordered) (now : Nat) : (s.poll now).2.Ordered :=
  (Heap.pairwise_popWhile Deadline.le_total Deadline.le_trans _ ordered).2.2

/-- What polling leaves is not due yet. -/
theorem late_of_left (ordered : s.Ordered)
    (left : d ∈ (s.items.popWhile Deadline.le (·.fireAt ≤ now)).2.toList) : now < d.fireAt := by
  have ordered' := ordered.poll now
  cases top : (s.items.popWhile Deadline.le (·.fireAt ≤ now)).2.top? with
  | none =>
      cases rest : (s.items.popWhile Deadline.le (·.fireAt ≤ now)).2 with
      | empty => rw [rest] at left; cases left
      | node => rw [rest] at top; cases top
  | some first =>
      -- what is left goes behind the top that is left, and that is not due
      have later := Heap.top?_popWhile top
      have before := Deadline.fireAt_le_of_le
        (Heap.le_of_top?_eq_some Deadline.le_total ordered' top left)
      simp only [decide_eq_true_eq] at later
      omega

/-- A deadline fires once its time has come. -/
theorem Has.fires (has : s.Has d) (ordered : s.Ordered) (passed : d.fireAt ≤ now) :
    d ∈ (s.poll now).1 := by
  have popped := Heap.popWhile_perm Deadline.le (·.fireAt ≤ now) s.items
  rcases List.mem_append.1 (popped.mem_iff.1 has.set_) with due | left
  · exact mem_release due has.unmarked
  · exact absurd passed (Nat.not_le.2 (late_of_left ordered left))

/-- A deadline whose time has not come stays set. -/
theorem Has.poll (has : s.Has d) (ahead : now < d.fireAt) : (s.poll now).2.Has d := by
  have popped := Heap.popWhile_perm Deadline.le (·.fireAt ≤ now) s.items
  refine ⟨?_, fun marked => has.unmarked (release_subset _ _ marked)⟩
  rcases List.mem_append.1 (popped.mem_iff.1 has.set_) with due | left
  · have passed := Heap.of_mem_popWhile due
    simp only [decide_eq_true_eq] at passed
    exact absurd ahead (Nat.not_lt.2 passed)
  · exact left

end Deadlines
end BuildPipeline
