import BuildPipeline.Proofs.Deadlines.Agenda
import Mathlib.Data.List.Perm.Subperm

/-!
What a mark stands for when a pair is set more than once. A pair has one mark, however many
deadlines it has (`Deadlines.of`). The mark holds back the first of them that comes out of the heap
and no other (`filter_poll_cancel`), and it is withdrawn for all of them when the pair is set again.
So a pair that is cancelled stays silent exactly where it was set at most once, and is not set again
(`silent_iff`).
-/

namespace BuildPipeline.Deadlines

variable {s : Deadlines} {d : Deadline} {key : Deadline.Key} {op : Op} {ops : List Op} {now : Nat}

/-- The deadlines of a pair that are set, cancelled or not. -/
def of (s : Deadlines) (key : Deadline.Key) : List Deadline :=
  s.items.toList.filter (·.key = key)

/-- What is due, marked or not, in the order in which it comes out of the heap. -/
def due (s : Deadlines) (now : Nat) : List Deadline :=
  (s.items.popWhile Deadline.le (·.fireAt ≤ now)).1

/-- What fires in a row of operations. -/
def fired (s : Deadlines) (ops : List Op) : List Deadline :=
  (Op.run step s ops).1.flatMap (·.fired)

theorem mem_of : d ∈ s.of key ↔ d ∈ s.items.toList ∧ d.key = key := by
  rw [of, List.mem_filter, decide_eq_true_eq]

theorem fired_cons (s : Deadlines) (op : Op) (ops : List Op) :
    s.fired (op :: ops) = (s.apply op).1 ++ (s.apply op).2.fired ops :=
  List.flatMap_cons

/-! ## The heap stays in order -/

theorem Ordered.apply (ordered : s.Ordered) (op : Op) : (s.apply op).2.Ordered := by
  cases op with
  | schedule d => exact ordered.schedule d
  | cancel key => exact ordered.cancel key
  | cancelBuild id => exact ordered_cancelBuild s id
  | poll now => exact ordered.poll now

theorem Ordered.run (ordered : s.Ordered) (ops : List Op) : (Op.run step s ops).2.Ordered := by
  induction ops generalizing s with
  | nil => exact ordered
  | cons op ops ih => exact ih (ordered.apply op)

/-! ## What a poll takes out -/

/-- A mark is used up by the first deadline of its pair, and the others fire. -/
theorem filter_release (cancelled : List Deadline.Key) (due : List Deadline) :
    (release cancelled due).1.filter (·.key = key) =
      if key ∈ cancelled then (due.filter (·.key = key)).tail else due.filter (·.key = key) := by
  induction due generalizing cancelled with
  | nil => simp [release]
  | cons d due ih =>
      unfold release
      by_cases own : d.key = key
      · subst own
        by_cases marked : d.key ∈ cancelled
        · simp [marked, ih]
        · simp [marked, ih]
      · by_cases marked : d.key ∈ cancelled
        · simp [marked, own, ih, Ne.symm own]
        · simp [marked, own, ih]

theorem mem_marks_release {cancelled : List Deadline.Key} {due : List Deadline}
    (marked : key ∈ cancelled) (other : ∀ d ∈ due, d.key ≠ key) :
    key ∈ (release cancelled due).2 := by
  induction due generalizing cancelled with
  | nil => exact marked
  | cons d due ih =>
      obtain ⟨ne, other⟩ := List.forall_mem_cons.1 other
      unfold release
      split
      · exact ih (List.mem_filter.2 ⟨marked, by simpa using Ne.symm ne⟩) other
      · exact ih marked other

/-- The deadlines of a pair are those that are due and those that are left. -/
theorem of_perm (s : Deadlines) (key : Deadline.Key) (now : Nat) :
    (s.of key).Perm ((s.due now).filter (·.key = key) ++ (s.poll now).2.of key) := by
  have popped := Heap.popWhile_perm Deadline.le (·.fireAt ≤ now) s.items
  have parts := popped.filter (·.key = key)
  rwa [List.filter_append] at parts

theorem passed_of_mem_due (mem : d ∈ s.due now) : d.fireAt ≤ now := by
  unfold due at mem
  simpa using Heap.of_mem_popWhile mem

theorem filter_due_perm (ordered : s.Ordered) (key : Deadline.Key) (now : Nat) :
    ((s.due now).filter (·.key = key)).Perm ((s.of key).filter (·.fireAt ≤ now)) := by
  have early : ((s.due now).filter (·.key = key)).filter (·.fireAt ≤ now) =
      (s.due now).filter (·.key = key) :=
    List.filter_eq_self.2 fun d mem => decide_eq_true (passed_of_mem_due (List.mem_filter.1 mem).1)
  have late : ((s.poll now).2.of key).filter (·.fireAt ≤ now) = [] := by
    refine List.filter_eq_nil_iff.2 fun d mem => ?_
    simpa using late_of_left ordered (mem_of.1 mem).1
  have parts := (of_perm s key now).filter (·.fireAt ≤ now)
  rw [List.filter_append, early, late, List.append_nil] at parts
  exact parts.symm

theorem filter_poll (s : Deadlines) (key : Deadline.Key) (now : Nat) :
    (s.poll now).1.filter (·.key = key) =
      if key ∈ s.cancelled then ((s.due now).filter (·.key = key)).tail
      else (s.due now).filter (·.key = key) :=
  filter_release _ _

/-! ## Behind a cancellation -/

theorem mem_cancelled_cancel (set_ : d ∈ s.of key) : key ∈ (s.cancel key).cancelled := by
  obtain ⟨mem, own⟩ := mem_of.1 set_
  unfold cancel
  split
  · exact List.mem_cons_self
  · rename_i marks
    by_contra unmarked
    exact marks ⟨List.any_eq_true.2 ⟨d, mem, decide_eq_true own⟩, unmarked⟩

theorem due_cancel (s : Deadlines) (key : Deadline.Key) (now : Nat) :
    (s.cancel key).due now = s.due now := by
  unfold due
  rw [items_cancel]

theorem of_cancel (s : Deadlines) (key other : Deadline.Key) :
    (s.cancel other).of key = s.of key := by
  unfold of
  rw [items_cancel]

/-- A cancellation holds back the first deadline of the pair that falls due, and no other. -/
theorem filter_poll_cancel (s : Deadlines) (key : Deadline.Key) (now : Nat) :
    ((s.cancel key).poll now).1.filter (·.key = key) =
      ((s.due now).filter (·.key = key)).tail := by
  rw [filter_poll, due_cancel]
  split
  · rfl
  · rename_i unmarked
    have none_ : s.of key = [] := List.eq_nil_iff_forall_not_mem.2 fun d set_ =>
      unmarked (mem_cancelled_cancel set_)
    have parts := of_perm s key now
    rw [none_] at parts
    rw [(List.append_eq_nil_iff.1 parts.nil_eq.symm).1]
    rfl

/-- The pair is set at most once, and marked if it is. -/
structure Hushed (s : Deadlines) (key : Deadline.Key) : Prop where
  once : (s.of key).length ≤ 1
  marked : ∀ d ∈ s.of key, key ∈ s.cancelled

theorem hushed_cancel (once : (s.of key).length ≤ 1) : (s.cancel key).Hushed key := by
  have same := of_cancel s key key
  refine ⟨same.symm ▸ once, fun d set_ => ?_⟩
  rw [same] at set_
  exact mem_cancelled_cancel set_

/-- Only setting the pair adds to its deadlines. -/
theorem of_apply_subperm (s : Deadlines) (other : op.sets ≠ some key) :
    ((s.apply op).2.of key).Subperm (s.of key) := by
  cases op with
  | schedule d =>
      have ne : d.key ≠ key := fun same => other (congrArg some same)
      have parts := (Heap.push_perm Deadline.le s.items d).filter (·.key = key)
      rw [List.filter_cons_of_neg (by simpa using ne)] at parts
      exact parts.subperm
  | cancel marked => exact (List.Perm.of_eq (of_cancel s key marked)).subperm
  | cancelBuild id =>
      have parts := (Heap.filter_perm Deadline.le (·.buildId ≠ id) s.items).filter (·.key = key)
      exact parts.subperm.trans (List.filter_sublist.filter _).subperm
  | poll now =>
      exact (List.sublist_append_right _ _).subperm.trans (of_perm s key now).symm.subperm

/-- Of a pair that is hushed nothing fires, and the mark is not used up while a deadline is left. -/
theorem Hushed.poll (hushed : s.Hushed key) (now : Nat) :
    (∀ d ∈ (s.poll now).1, d.key ≠ key) ∧
      ∀ d ∈ (s.poll now).2.of key, key ∈ (s.poll now).2.cancelled := by
  have parts := of_perm s key now
  have once := hushed.once
  rw [parts.length_eq, List.length_append] at once
  constructor
  · -- the only one that can be due uses up the mark
    have silent : (s.poll now).1.filter (·.key = key) = [] := by
      rw [filter_poll]
      split
      · refine List.eq_nil_of_length_eq_zero ?_
        rw [List.length_tail]
        omega
      · rename_i unmarked
        refine List.eq_nil_iff_forall_not_mem.2 fun d mem => unmarked ?_
        exact hushed.marked d (parts.mem_iff.2 (List.mem_append_left _ mem))
    intro d mem own
    exact List.filter_eq_nil_iff.1 silent d mem (decide_eq_true own)
  · intro d set_
    have marked := hushed.marked d (parts.mem_iff.2 (List.mem_append_right _ set_))
    refine mem_marks_release marked fun e mem own => ?_
    -- one is left, so none of the pair was due
    have popped : e ∈ (s.due now).filter (·.key = key) :=
      List.mem_filter.2 ⟨mem, decide_eq_true own⟩
    have left := List.length_pos_of_mem set_
    have := List.length_pos_of_mem popped
    omega

/-- A pair that is hushed stays so until it is set again, and does not fire. -/
theorem Hushed.apply (hushed : s.Hushed key) (other : op.sets ≠ some key) :
    (∀ d ∈ (s.apply op).1, d.key ≠ key) ∧ (s.apply op).2.Hushed key := by
  have fewer := of_apply_subperm s other
  have once := Nat.le_trans fewer.length_le hushed.once
  have marked : ∀ d ∈ (s.apply op).2.of key, key ∈ s.cancelled := fun d set_ =>
    hushed.marked d (fewer.subset set_)
  cases op with
  | schedule e =>
      refine ⟨fun d none_ => absurd none_ List.not_mem_nil, once, fun d set_ => ?_⟩
      refine List.mem_filter.2 ⟨marked d set_, decide_eq_true ?_⟩
      exact fun same => other (congrArg some same.symm)
  | cancel e =>
      refine ⟨fun d none_ => absurd none_ List.not_mem_nil, once, fun d set_ => ?_⟩
      have old := marked d set_
      simp only [Deadlines.apply, Deadlines.cancel]
      split
      · exact List.mem_cons_of_mem _ old
      · exact old
  | cancelBuild id =>
      refine ⟨fun d none_ => absurd none_ List.not_mem_nil, once, fun d set_ => ?_⟩
      refine List.mem_filter.2 ⟨marked d set_, decide_eq_true ?_⟩
      obtain ⟨mem, rfl⟩ := mem_of.1 set_
      exact (mem_items_cancelBuild.1 mem).2
  | poll now =>
      obtain ⟨silent, marked⟩ := hushed.poll now
      exact ⟨silent, once, marked⟩

theorem Hushed.fired (hushed : s.Hushed key) (other : ∀ op ∈ ops, op.sets ≠ some key) :
    ∀ d ∈ s.fired ops, d.key ≠ key := by
  induction ops generalizing s with
  | nil => exact fun d none_ => absurd none_ List.not_mem_nil
  | cons op ops ih =>
      obtain ⟨here, later⟩ := List.forall_mem_cons.1 other
      obtain ⟨silent, after⟩ := hushed.apply here
      rw [fired_cons]
      exact fun d mem => (List.mem_append.1 mem).elim (silent d) (ih after later d)

/-! ## What a cancellation is good for -/

/-- Where a pair is set twice, a poll behind both fires one of them although it is cancelled. -/
theorem exists_fired_cancel (ordered : s.Ordered) (twice : 1 < (s.of key).length) :
    ∃ now, ∃ d ∈ ((s.cancel key).poll now).1, d.key = key := by
  let times := (s.of key).map (·.fireAt)
  have some_ : times ≠ [] := List.ne_nil_of_length_pos (by rw [List.length_map]; omega)
  let now := times.max some_
  have passed : ∀ d ∈ s.of key, d.fireAt ≤ now := fun d mem =>
    List.le_max_of_mem (List.mem_map_of_mem mem)
  have all : (s.of key).filter (·.fireAt ≤ now) = s.of key :=
    List.filter_eq_self.2 fun d mem => decide_eq_true (passed d mem)
  have due := (filter_due_perm ordered key now).length_eq
  rw [all] at due
  have fires : 0 < (((s.cancel key).poll now).1.filter (·.key = key)).length := by
    rw [filter_poll_cancel, List.length_tail]
    omega
  obtain ⟨d, mem⟩ := List.exists_mem_of_length_pos fires
  obtain ⟨fired, own⟩ := List.mem_filter.1 mem
  exact ⟨now, d, fired, of_decide_eq_true own⟩

/-- What cancelling a pair comes to, after any row of operations.

The pair stays silent for as long as it is not set again, exactly if it was set at most once. A poll
holds back the first deadline of the pair that falls due, and fires the others. Setting the pair
again voids the cancellation: every deadline that the pair had fires when its time has come. -/
theorem silent_iff (ops : List Op) (key : Deadline.Key) :
    let s := (Op.run step {} ops).2
    ((∀ later : List Op, (∀ op ∈ later, op.sets ≠ some key) →
        ∀ d ∈ (s.cancel key).fired later, d.key ≠ key) ↔ (s.of key).length ≤ 1) ∧
      (∀ now, ((s.cancel key).poll now).1.filter (·.key = key) =
        ((s.due now).filter (·.key = key)).tail) ∧
      ∀ again : Deadline, again.key = key → ∀ d ∈ s.of key, ∀ now, d.fireAt ≤ now →
        d ∈ (((s.cancel key).schedule again).poll now).1 := by
  intro s
  have ordered : s.Ordered := ordered_empty.run ops
  refine ⟨⟨fun silent => ?_, fun once later other => (hushed_cancel once).fired other⟩,
    filter_poll_cancel s key, fun again own d set_ now passed => ?_⟩
  · by_contra twice
    obtain ⟨now, d, fires, own⟩ := exists_fired_cancel ordered (Nat.lt_of_not_le twice)
    refine silent [.poll now] (by simp [Op.sets]) d ?_ own
    rw [fired_cons]
    exact List.mem_append_left _ fires
  · obtain ⟨mem, rfl⟩ := mem_of.1 set_
    have has : ((s.cancel d.key).schedule again).Has d := by
      refine ⟨?_, fun marked => ?_⟩
      · refine (Heap.push_perm Deadline.le _ again).mem_iff.2 (List.mem_cons_of_mem _ ?_)
        rwa [items_cancel]
      · exact of_decide_eq_true (List.mem_filter.1 marked).2 own.symm
    exact has.fires ((ordered.cancel _).schedule again) passed

/-- Of two deadlines of a pair that are set when it is cancelled, the later one fires. So does a
deadline that is cancelled, once its pair is set again. -/
theorem cancelled_deadline_fires :
    let at_ (fireAt : Nat) : Deadline :=
      { buildId := ⟨"b-1"⟩, token := ⟨1⟩, capability := .setup, fireAt, timeout := .ofSeconds 1 0 }
    let twice := (Op.run step {} [.schedule (at_ 10), .schedule (at_ 20)]).2
    let once := (Op.run step {} [.schedule (at_ 10)]).2
    (at_ 20 ∈ twice.of (at_ 10).key ∧
      (twice.cancel (at_ 10).key).fired [.poll 20] = [at_ 20]) ∧
    at_ 10 ∈ once.of (at_ 10).key ∧
      (once.cancel (at_ 10).key).fired [.schedule (at_ 20), .poll 10] = [at_ 10] :=
  ⟨⟨by decide, by decide⟩, by decide, by decide⟩

end BuildPipeline.Deadlines
