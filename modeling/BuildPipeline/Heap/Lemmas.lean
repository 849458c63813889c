import BuildPipeline.Heap.Basic

/-!
What the operations on heaps do to the values in them. Main statements: adding a value adds just
that value (`push_perm`), taking the top away takes away just that (`perm_of_pop?_eq_some`), and
keeping the values that satisfy a condition is the same for a heap and for its list (`filter_perm`).
-/

namespace BuildPipeline.Heap

variable {α : Type}

/-! ## Values -/

theorem flatten_besides_perm (xs ys : List (List α)) :
    (besides xs ys).flatten.Perm (xs.flatten ++ ys.flatten) := by
  fun_induction besides xs ys with
  | case1 ys => exact .refl _
  | case2 xs => simp
  | case3 x xs y ys ih =>
    simp only [List.flatten_cons, List.append_assoc]
    refine .append_left x ?_
    refine (ih.append_left y).trans ?_
    rw [← List.append_assoc, ← List.append_assoc]
    exact List.perm_append_comm.append_right ys.flatten

theorem toList_node_perm (a : α) (l r : Heap α) :
    (node a l r).toList.Perm (a :: (l.toList ++ r.toList)) := by
  simpa [toList, rows] using flatten_besides_perm l.rows r.rows

@[simp] theorem toList_empty : (empty : Heap α).toList = [] := rfl

@[simp] theorem mem_toList_node {x a : α} {l r : Heap α} :
    x ∈ (node a l r).toList ↔ x = a ∨ x ∈ l.toList ∨ x ∈ r.toList := by
  simp [(toList_node_perm a l r).mem_iff]

theorem length_toList (t : Heap α) : t.toList.length = t.size := by
  induction t with
  | empty => rfl
  | node a l r hl hr => simp [(toList_node_perm a l r).length_eq, size, hl, hr]

/-- Permutations of the values are told by counting them. -/
theorem count_toList_node [BEq α] [LawfulBEq α] (x a : α) (l r : Heap α) :
    (node a l r).toList.count x =
      l.toList.count x + r.toList.count x + if a == x then 1 else 0 := by
  rw [(toList_node_perm a l r).count_eq, List.count_cons, List.count_append]

theorem overLeft_perm (le : α → α → Bool) (p : α) (l r : Heap α) :
    (overLeft le p l r).toList.Perm (node p l r).toList := by
  classical
  unfold overLeft
  split
  · exact .refl _
  · split
    · exact .refl _
    · refine List.perm_iff_count.2 fun x => ?_
      simp only [count_toList_node]
      omega

theorem overRight_perm (le : α → α → Bool) (p : α) (l r : Heap α) :
    (overRight le p l r).toList.Perm (node p l r).toList := by
  classical
  unfold overRight
  split
  · exact .refl _
  · split
    · exact .refl _
    · refine List.perm_iff_count.2 fun x => ?_
      simp only [count_toList_node]
      omega

theorem pushAt_perm (le : α → α → Bool) (x : α) (turns : List Bool) (t : Heap α) :
    (pushAt le x turns t).toList.Perm (x :: t.toList) := by
  classical
  fun_induction pushAt le x turns t with
  | case1 => exact .refl _
  | case2 turns p l r ih =>
    refine (overRight_perm le p l _).trans (List.perm_iff_count.2 fun y => ?_)
    have := ih.count_eq y
    simp only [count_toList_node, List.count_cons] at this ⊢
    omega
  | case3 turns p l r _ ih =>
    refine (overLeft_perm le p _ r).trans (List.perm_iff_count.2 fun y => ?_)
    have := ih.count_eq y
    simp only [count_toList_node, List.count_cons] at this ⊢
    omega

theorem push_perm (le : α → α → Bool) (t : Heap α) (x : α) :
    (t.push le x).toList.Perm (x :: t.toList) :=
  pushAt_perm le x _ t

theorem detach_eq_none {turns : List Bool} {t : Heap α} (h : detach turns t = none) :
    t = empty := by
  unfold detach at h
  split at h
  · rfl
  · split at h <;> simp at h
  · split at h <;> simp at h

theorem perm_of_detach_eq_some {turns : List Bool} {t rest : Heap α} {x : α}
    (h : detach turns t = some (x, rest)) : t.toList.Perm (x :: rest.toList) := by
  classical
  fun_induction detach turns t generalizing x rest with
  | case1 => simp at h
  | case2 turns p l r none _ =>
    cases detach_eq_none none
    simp only [Option.some.injEq, Prod.mk.injEq] at h
    obtain ⟨rfl, rfl⟩ := h
    refine List.perm_iff_count.2 fun y => ?_
    simp only [count_toList_node, List.count_cons, toList_empty, List.count_nil]
    omega
  | case3 turns p l r last r' found ih =>
    simp only [Option.some.injEq, Prod.mk.injEq] at h
    obtain ⟨rfl, rfl⟩ := h
    refine List.perm_iff_count.2 fun y => ?_
    have := (ih found).count_eq y
    simp only [count_toList_node, List.count_cons] at this ⊢
    omega
  | case4 turns p l r _ none _ =>
    cases detach_eq_none none
    simp only [Option.some.injEq, Prod.mk.injEq] at h
    obtain ⟨rfl, rfl⟩ := h
    refine List.perm_iff_count.2 fun y => ?_
    simp only [count_toList_node, List.count_cons, toList_empty, List.count_nil]
    omega
  | case5 turns p l r _ last l' found ih =>
    simp only [Option.some.injEq, Prod.mk.injEq] at h
    obtain ⟨rfl, rfl⟩ := h
    refine List.perm_iff_count.2 fun y => ?_
    have := (ih found).count_eq y
    simp only [count_toList_node, List.count_cons] at this ⊢
    omega

/-- The child that comes first is the top of the part that it is said to be in. -/
theorem exists_of_firstChild?_eq_some {le : α → α → Bool} {l r : Heap α} {right : Bool} {c : α}
    (h : firstChild? le l r = some (right, c)) :
    ∃ cl cr, (if right then r else l) = node c cl cr := by
  cases l <;> cases r <;> simp [firstChild?, top?] at h
  · obtain ⟨rfl, rfl⟩ := h; exact ⟨_, _, rfl⟩
  · obtain ⟨rfl, rfl⟩ := h; exact ⟨_, _, rfl⟩
  · split at h <;>
    · simp only [Option.some.injEq, Prod.mk.injEq] at h
      obtain ⟨rfl, rfl⟩ := h
      exact ⟨_, _, rfl⟩

theorem sink_perm (le rises : α → α → Bool) (x a : α) (l r : Heap α) :
    (sink le rises x (node a l r)).toList.Perm (node x l r).toList := by
  classical
  generalize ht : node a l r = t
  induction t generalizing a l r with
  | empty => simp at ht
  | node b l' r' hl hr =>
    obtain ⟨rfl, rfl, rfl⟩ := ht
    unfold sink
    split
    · exact .refl _
    · rename_i right c first
      obtain ⟨cl, cr, part⟩ := exists_of_firstChild?_eq_some first
      split
      · split
        · rename_i isRight
          rw [if_pos isRight] at part
          subst part
          refine List.perm_iff_count.2 fun y => ?_
          have := (hr c cl cr rfl).count_eq y
          simp only [count_toList_node] at this ⊢
          omega
        · rename_i isLeft
          rw [if_neg isLeft] at part
          subst part
          refine List.perm_iff_count.2 fun y => ?_
          have := (hl c cl cr rfl).count_eq y
          simp only [count_toList_node] at this ⊢
          omega
      · exact .refl _

theorem settle_perm (le : α → α → Bool) (x : α) (l r : Heap α) :
    (settle le x l r).toList.Perm (node x l r).toList :=
  sink_perm le le x x l r

theorem pop?_eq_none_iff {le : α → α → Bool} {t : Heap α} : pop? le t = none ↔ t = empty := by
  constructor
  · intro h
    unfold pop? at h
    split at h
    · rfl
    · split at h <;> split at h <;> simp at h
  · rintro rfl
    rfl

/-- What is taken away is the top. -/
theorem top?_of_pop?_eq_some {le : α → α → Bool} {t rest : Heap α} {x : α}
    (h : pop? le t = some (x, rest)) : t.top? = some x := by
  unfold pop? at h
  split at h
  · simp at h
  · split at h <;> split at h <;> simp_all [top?]

theorem perm_of_pop?_eq_some {le : α → α → Bool} {t rest : Heap α} {x : α}
    (h : pop? le t = some (x, rest)) : t.toList.Perm (x :: rest.toList) := by
  classical
  unfold pop? at h
  split at h
  · simp at h
  · split at h
    all_goals
      split at h
      all_goals
        rename_i found
        simp only [Option.some.injEq, Prod.mk.injEq] at h
        obtain ⟨rfl, rfl⟩ := h
        refine List.perm_iff_count.2 fun y => ?_
    · cases detach_eq_none found
      simp only [count_toList_node, List.count_cons, toList_empty, List.count_nil]
      omega
    · have gone := (perm_of_detach_eq_some found).count_eq y
      rw [List.count_cons, (settle_perm _ _ _ _).count_eq]
      simp only [count_toList_node, List.count_cons] at gone ⊢
      omega
    · cases detach_eq_none found
      simp only [count_toList_node, List.count_cons, toList_empty, List.count_nil]
      omega
    · have gone := (perm_of_detach_eq_some found).count_eq y
      rw [List.count_cons, (settle_perm _ _ _ _).count_eq]
      simp only [count_toList_node, List.count_cons] at gone ⊢
      omega

theorem size_of_pop?_eq_some {le : α → α → Bool} {t rest : Heap α} {x : α}
    (h : pop? le t = some (x, rest)) : t.size = rest.size + 1 := by
  simpa [length_toList] using (perm_of_pop?_eq_some h).length_eq

theorem foldl_push_perm (le : α → α → Bool) (xs : List α) (t : Heap α) :
    (xs.foldl (push le) t).toList.Perm (xs ++ t.toList) := by
  induction xs generalizing t with
  | nil => exact .refl _
  | cons x xs ih =>
    refine (ih _).trans (((push_perm le t x).append_left xs).trans ?_)
    exact List.perm_middle

theorem ofRows_perm (xs : List α) : (ofRows xs).toList.Perm xs := by
  unfold ofRows
  simpa using foldl_push_perm (fun _ _ => true) xs empty

theorem heapify_perm (le : α → α → Bool) (t : Heap α) : (heapify le t).toList.Perm t.toList := by
  classical
  induction t with
  | empty => exact .refl _
  | node a l r hl hr =>
    refine (sink_perm _ _ _ _ _ _).trans (List.perm_iff_count.2 fun y => ?_)
    have := hl.count_eq y
    have := hr.count_eq y
    simp only [count_toList_node]
    omega

theorem filter_perm (le : α → α → Bool) (keep : α → Bool) (t : Heap α) :
    (t.filter le keep).toList.Perm (t.toList.filter keep) := by
  unfold filter
  extract_lets kept front
  split
  · exact (heapify_perm _ _).trans (ofRows_perm _)
  · simpa using foldl_push_perm le kept empty

theorem popAtMost_perm (le : α → α → Bool) (p : α → Bool) (n : Nat) (t : Heap α) :
    t.toList.Perm ((popAtMost le p n t).1 ++ (popAtMost le p n t).2.toList) := by
  fun_induction popAtMost le p n t with
  | case1 => exact .refl _
  | case2 => exact .refl _
  | case3 n t x rest popped _ xs left eq ih =>
    rw [eq] at ih
    exact (perm_of_pop?_eq_some popped).trans (ih.cons x)
  | case4 => exact .refl _

theorem popWhile_perm (le : α → α → Bool) (p : α → Bool) (t : Heap α) :
    t.toList.Perm ((t.popWhile le p).1 ++ (t.popWhile le p).2.toList) :=
  popAtMost_perm le p t.size t

end BuildPipeline.Heap
