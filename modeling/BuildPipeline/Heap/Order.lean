import BuildPipeline.Heap.Lemmas

/-!
Heaps in order. In such a heap no value goes before one above it. Main statements, for an order that
is total and transitive: every operation keeps a heap in order (`isOrdered_push`,
`isOrdered_of_pop?_eq_some`, `isOrdered_filter`), the top goes before all other values
(`le_of_top?_eq_some`), and what is taken away while a condition holds comes out in order, before
all that is left (`pairwise_popWhile`).
-/

namespace BuildPipeline.Heap

variable {α : Type} {le : α → α → Bool}

/-- Whether every value goes before all values below it, or is level with them. -/
def IsOrdered (le : α → α → Bool) : Heap α → Prop
  | empty => True
  | node a l r =>
    (∀ b ∈ l.toList, le a b) ∧ (∀ b ∈ r.toList, le a b) ∧ IsOrdered le l ∧ IsOrdered le r

theorem le_of_top?_eq_some (total : ∀ a b, le a b || le b a) {t : Heap α} {a b : α}
    (ordered : IsOrdered le t) (top : t.top? = some a) (mem : b ∈ t.toList) : le a b := by
  cases t with
  | empty => simp at mem
  | node x l r =>
    cases top
    rcases mem_toList_node.1 mem with rfl | mem | mem
    · simpa using total b b
    · exact ordered.1 b mem
    · exact ordered.2.1 b mem

theorem isOrdered_empty : IsOrdered le empty := trivial

/-! ## Adding -/

/-- Where a value was added to a part below `p`, and the top of the part goes first now, that top is
the value. So `p` goes before all the rest. -/
theorem le_below_of_perm {p q x : α} {ql qr : Heap α} {before : List α}
    (perm : (node q ql qr).toList.Perm (x :: before)) (above : ∀ b ∈ before, le p b)
    (first : ¬ le p q) : ∀ b ∈ (node p ql qr).toList, b ≠ p → le p b := by
  have top : q ∈ x :: before := perm.mem_iff.1 (by simp)
  have isNew : q = x := by
    rcases List.mem_cons.1 top with rfl | old
    · rfl
    · exact absurd (above q old) first
  subst isNew
  have rest : (ql.toList ++ qr.toList).Perm before :=
    ((toList_node_perm q ql qr).symm.trans perm).cons_inv
  intro b mem ne
  refine above b (rest.mem_iff.1 ?_)
  simpa [ne] using mem

theorem isOrdered_overLeft (total : ∀ a b, le a b || le b a)
    (trans : ∀ a b c, le a b → le b c → le a c) {p x : α} {l l' r : Heap α}
    (ordered : IsOrdered le (node p l r)) (perm : l'.toList.Perm (x :: l.toList))
    (ordered' : IsOrdered le l') : IsOrdered le (overLeft le p l' r) := by
  obtain ⟨aboveLeft, aboveRight, orderedLeft, orderedRight⟩ := ordered
  cases l' with
  | empty => simpa [overLeft, IsOrdered] using ⟨aboveRight, orderedRight⟩
  | node q ql qr =>
    unfold overLeft
    simp only
    split
    · rename_i first
      refine ⟨fun b mem => ?_, aboveRight, ordered', orderedRight⟩
      exact trans p q b first (le_of_top?_eq_some total ordered' rfl mem)
    · rename_i first
      have qp : le q p := by simpa [first] using total p q
      have below := le_below_of_perm perm aboveLeft first
      have self : le p p := by simpa using total p p
      have all : ∀ b ∈ (node p ql qr).toList, le p b := fun b mem => by
        by_cases same : b = p
        · exact same ▸ self
        · exact below b mem same
      refine ⟨fun b mem => trans q p b qp (all b mem),
        fun b mem => trans q p b qp (aboveRight b mem), ?_, orderedRight⟩
      exact ⟨fun b mem => all b (by simp [mem]), fun b mem => all b (by simp [mem]),
        ordered'.2.2.1, ordered'.2.2.2⟩

theorem isOrdered_overRight (total : ∀ a b, le a b || le b a)
    (trans : ∀ a b c, le a b → le b c → le a c) {p x : α} {l r r' : Heap α}
    (ordered : IsOrdered le (node p l r)) (perm : r'.toList.Perm (x :: r.toList))
    (ordered' : IsOrdered le r') : IsOrdered le (overRight le p l r') := by
  obtain ⟨aboveLeft, aboveRight, orderedLeft, orderedRight⟩ := ordered
  cases r' with
  | empty => simpa [overRight, IsOrdered] using ⟨aboveLeft, orderedLeft⟩
  | node q ql qr =>
    unfold overRight
    simp only
    split
    · rename_i first
      refine ⟨aboveLeft, fun b mem => ?_, orderedLeft, ordered'⟩
      exact trans p q b first (le_of_top?_eq_some total ordered' rfl mem)
    · rename_i first
      have qp : le q p := by simpa [first] using total p q
      have below := le_below_of_perm perm aboveRight first
      have self : le p p := by simpa using total p p
      have all : ∀ b ∈ (node p ql qr).toList, le p b := fun b mem => by
        by_cases same : b = p
        · exact same ▸ self
        · exact below b mem same
      refine ⟨fun b mem => trans q p b qp (aboveLeft b mem),
        fun b mem => trans q p b qp (all b mem), orderedLeft, ?_⟩
      exact ⟨fun b mem => all b (by simp [mem]), fun b mem => all b (by simp [mem]),
        ordered'.2.2.1, ordered'.2.2.2⟩

theorem isOrdered_pushAt (total : ∀ a b, le a b || le b a)
    (trans : ∀ a b c, le a b → le b c → le a c) (x : α) (turns : List Bool) {t : Heap α}
    (ordered : IsOrdered le t) : IsOrdered le (pushAt le x turns t) := by
  fun_induction pushAt le x turns t with
  | case1 => simp [IsOrdered]
  | case2 turns p l r ih =>
    exact isOrdered_overRight total trans ordered (pushAt_perm le x _ r) (ih ordered.2.2.2)
  | case3 turns p l r _ ih =>
    exact isOrdered_overLeft total trans ordered (pushAt_perm le x _ l) (ih ordered.2.2.1)

theorem isOrdered_push (total : ∀ a b, le a b || le b a)
    (trans : ∀ a b c, le a b → le b c → le a c) {t : Heap α} (ordered : IsOrdered le t) (x : α) :
    IsOrdered le (t.push le x) :=
  isOrdered_pushAt total trans x _ ordered

theorem isOrdered_foldl_push (total : ∀ a b, le a b || le b a)
    (trans : ∀ a b c, le a b → le b c → le a c) {t : Heap α} (ordered : IsOrdered le t)
    (xs : List α) : IsOrdered le (xs.foldl (push le) t) := by
  induction xs generalizing t with
  | nil => exact ordered
  | cons x xs ih => exact ih (isOrdered_push total trans ordered x)

/-! ## Taking away -/

/-- The child that comes first goes before all values of both parts. -/
theorem le_of_firstChild?_eq_some (total : ∀ a b, le a b || le b a)
    (trans : ∀ a b c, le a b → le b c → le a c) {l r : Heap α} {right : Bool} {c : α}
    (orderedLeft : IsOrdered le l) (orderedRight : IsOrdered le r)
    (first : firstChild? le l r = some (right, c)) :
    (∀ b ∈ l.toList, le c b) ∧ (∀ b ∈ r.toList, le c b) := by
  cases l with
  | empty =>
    cases r with
    | empty => simp [firstChild?, top?] at first
    | node q ql qr =>
      simp only [firstChild?, top?, Option.some.injEq, Prod.mk.injEq] at first
      obtain ⟨-, rfl⟩ := first
      exact ⟨by simp, fun b mem => le_of_top?_eq_some total orderedRight rfl mem⟩
  | node p pl pr =>
    cases r with
    | empty =>
      simp only [firstChild?, top?, Option.some.injEq, Prod.mk.injEq] at first
      obtain ⟨-, rfl⟩ := first
      exact ⟨fun b mem => le_of_top?_eq_some total orderedLeft rfl mem, by simp⟩
    | node q ql qr =>
      have ofLeft : ∀ b ∈ (node p pl pr).toList, le p b :=
        fun b mem => le_of_top?_eq_some total orderedLeft rfl mem
      have ofRight : ∀ b ∈ (node q ql qr).toList, le q b :=
        fun b mem => le_of_top?_eq_some total orderedRight rfl mem
      simp only [firstChild?, top?] at first
      split at first
      · rename_i rightFirst
        simp only [Option.some.injEq, Prod.mk.injEq] at first
        obtain ⟨-, rfl⟩ := first
        exact ⟨fun b mem => trans _ _ b rightFirst (ofLeft b mem), ofRight⟩
      · rename_i leftFirst
        simp only [Option.some.injEq, Prod.mk.injEq] at first
        obtain ⟨-, rfl⟩ := first
        have pq : le p q := by simpa [leftFirst] using total p q
        exact ⟨ofLeft, fun b mem => trans _ _ b pq (ofRight b mem)⟩

theorem firstChild?_eq_none {l r : Heap α} (h : firstChild? le l r = none) :
    l = empty ∧ r = empty := by
  cases l <;> cases r <;> simp [firstChild?, top?] at h ⊢
  split at h <;> simp at h

/-- A value that sinks puts the tree in order, if the parts are. -/
theorem isOrdered_sink (total : ∀ a b, le a b || le b a)
    (trans : ∀ a b c, le a b → le b c → le a c) {rises : α → α → Bool} {x : α}
    (rising : ∀ c, rises c x → le c x) (staying : ∀ c, ¬ rises c x → le x c) {a : α}
    {l r : Heap α} (orderedLeft : IsOrdered le l) (orderedRight : IsOrdered le r) :
    IsOrdered le (sink le rises x (node a l r)) := by
  generalize whole : node a l r = t
  induction t generalizing a l r with
  | empty => simp at whole
  | node b l' r' hl hr =>
    obtain ⟨rfl, rfl, rfl⟩ := whole
    unfold sink
    split
    · rename_i none
      obtain ⟨rfl, rfl⟩ := firstChild?_eq_none none
      simp [IsOrdered]
    · rename_i right c first
      obtain ⟨cl, cr, part⟩ := exists_of_firstChild?_eq_some first
      have least := le_of_firstChild?_eq_some total trans orderedLeft orderedRight first
      split
      · rename_i up
        have cx := rising c up
        split
        · rename_i isRight
          rw [if_pos isRight] at part
          subst part
          refine ⟨least.1, fun b mem => ?_, orderedLeft,
            hr orderedRight.2.2.1 orderedRight.2.2.2 rfl⟩
          rcases mem_toList_node.1 ((sink_perm le rises x c cl cr).mem_iff.1 mem) with rfl | mem
          · exact cx
          · exact least.2 b (mem_toList_node.2 (.inr mem))
        · rename_i isLeft
          rw [if_neg isLeft] at part
          subst part
          refine ⟨fun b mem => ?_, least.2, hl orderedLeft.2.2.1 orderedLeft.2.2.2 rfl,
            orderedRight⟩
          rcases mem_toList_node.1 ((sink_perm le rises x c cl cr).mem_iff.1 mem) with rfl | mem
          · exact cx
          · exact least.1 b (mem_toList_node.2 (.inr mem))
      · rename_i stays
        have xc := staying c stays
        exact ⟨fun b mem => trans x c b xc (least.1 b mem),
          fun b mem => trans x c b xc (least.2 b mem), orderedLeft, orderedRight⟩

theorem isOrdered_settle (total : ∀ a b, le a b || le b a)
    (trans : ∀ a b c, le a b → le b c → le a c) (x : α) {l r : Heap α}
    (orderedLeft : IsOrdered le l) (orderedRight : IsOrdered le r) :
    IsOrdered le (settle le x l r) :=
  isOrdered_sink total trans (fun _ h => h) (fun c h => by simpa [h] using total c x)
    orderedLeft orderedRight

theorem isOrdered_of_detach_eq_some {turns : List Bool} {t rest : Heap α} {x : α}
    (ordered : IsOrdered le t) (h : detach turns t = some (x, rest)) : IsOrdered le rest := by
  fun_induction detach turns t generalizing x rest with
  | case1 => simp at h
  | case2 turns p l r none _ =>
    simp only [Option.some.injEq, Prod.mk.injEq] at h
    exact h.2 ▸ ordered.2.2.1
  | case3 turns p l r last r' found ih =>
    simp only [Option.some.injEq, Prod.mk.injEq] at h
    obtain ⟨rfl, rfl⟩ := h
    refine ⟨ordered.1, fun b mem => ?_, ordered.2.2.1, ih ordered.2.2.2 found⟩
    exact ordered.2.1 b ((perm_of_detach_eq_some found).mem_iff.2 (.tail _ mem))
  | case4 turns p l r _ none _ =>
    simp only [Option.some.injEq, Prod.mk.injEq] at h
    exact h.2 ▸ ordered.2.2.2
  | case5 turns p l r _ last l' found ih =>
    simp only [Option.some.injEq, Prod.mk.injEq] at h
    obtain ⟨rfl, rfl⟩ := h
    refine ⟨fun b mem => ?_, ordered.2.1, ih ordered.2.2.1 found, ordered.2.2.2⟩
    exact ordered.1 b ((perm_of_detach_eq_some found).mem_iff.2 (.tail _ mem))

theorem isOrdered_of_pop?_eq_some (total : ∀ a b, le a b || le b a)
    (trans : ∀ a b c, le a b → le b c → le a c) {t rest : Heap α} {x : α}
    (ordered : IsOrdered le t) (h : pop? le t = some (x, rest)) : IsOrdered le rest := by
  unfold pop? at h
  split at h
  · simp at h
  · obtain ⟨-, -, orderedLeft, orderedRight⟩ := ordered
    split at h
    all_goals
      split at h
      all_goals
        rename_i found
        simp only [Option.some.injEq, Prod.mk.injEq] at h
        obtain ⟨rfl, rfl⟩ := h
    · exact orderedLeft
    · exact isOrdered_settle total trans _ orderedLeft
        (isOrdered_of_detach_eq_some orderedRight found)
    · exact orderedRight
    · exact isOrdered_settle total trans _ (isOrdered_of_detach_eq_some orderedLeft found)
        orderedRight

/-- What is taken away while a condition holds comes out in order and before all that is left. -/
theorem pairwise_popAtMost (total : ∀ a b, le a b || le b a)
    (trans : ∀ a b c, le a b → le b c → le a c) (p : α → Bool) (n : Nat) {t : Heap α}
    (ordered : IsOrdered le t) :
    (popAtMost le p n t).1.Pairwise (fun a b => le a b) ∧
      (∀ a ∈ (popAtMost le p n t).1, ∀ b ∈ (popAtMost le p n t).2.toList, le a b) ∧
      IsOrdered le (popAtMost le p n t).2 := by
  fun_induction popAtMost le p n t with
  | case1 => exact ⟨.nil, by simp, ordered⟩
  | case2 => exact ⟨.nil, by simp, ordered⟩
  | case3 n t x rest popped _ xs left eq ih =>
    obtain ⟨sorted, apart, ordered'⟩ := ih (isOrdered_of_pop?_eq_some total trans ordered popped)
    have perm := popAtMost_perm le p n rest
    rw [eq] at sorted apart ordered' perm
    have least : ∀ b ∈ rest.toList, le x b := fun b mem =>
      le_of_top?_eq_some total ordered (top?_of_pop?_eq_some popped)
        ((perm_of_pop?_eq_some popped).mem_iff.2 (.tail _ mem))
    refine ⟨sorted.cons fun b mem => least b (perm.mem_iff.2 (by simp [mem])), ?_, ordered'⟩
    intro a mem b mem'
    rcases List.mem_cons.1 mem with rfl | mem
    · exact least b (perm.mem_iff.2 (by simp [mem']))
    · exact apart a mem b mem'
  | case4 => exact ⟨.nil, by simp, ordered⟩

theorem pairwise_popWhile (total : ∀ a b, le a b || le b a)
    (trans : ∀ a b c, le a b → le b c → le a c) (p : α → Bool) {t : Heap α}
    (ordered : IsOrdered le t) :
    (t.popWhile le p).1.Pairwise (fun a b => le a b) ∧
      (∀ a ∈ (t.popWhile le p).1, ∀ b ∈ (t.popWhile le p).2.toList, le a b) ∧
      IsOrdered le (t.popWhile le p).2 :=
  pairwise_popAtMost total trans p t.size ordered

theorem of_mem_popAtMost {p : α → Bool} {n : Nat} {t : Heap α} {x : α}
    (mem : x ∈ (popAtMost le p n t).1) : p x := by
  fun_induction popAtMost le p n t with
  | case1 => simp at mem
  | case2 => simp at mem
  | case3 n t y rest _ yes xs left eq ih =>
    rw [eq] at ih
    rcases List.mem_cons.1 mem with rfl | mem
    · exact yes
    · exact ih mem
  | case4 => simp at mem

/-- What is taken away satisfies the condition. -/
theorem of_mem_popWhile {p : α → Bool} {t : Heap α} {x : α} (mem : x ∈ (t.popWhile le p).1) :
    p x :=
  of_mem_popAtMost mem

theorem top?_popAtMost {p : α → Bool} {n : Nat} {t : Heap α} (enough : t.size ≤ n) {x : α}
    (top : (popAtMost le p n t).2.top? = some x) : ¬ p x := by
  fun_induction popAtMost le p n t with
  | case1 t =>
    cases t with
    | empty => simp [top?] at top
    | node => simp [size] at enough
  | case2 n t none =>
    rw [pop?_eq_none_iff.1 none] at top
    simp [top?] at top
  | case3 n t y rest popped _ xs left eq ih =>
    rw [eq] at ih
    exact ih (by have := size_of_pop?_eq_some popped; omega) top
  | case4 n t y rest popped no =>
    rw [top?_of_pop?_eq_some popped] at top
    cases top
    exact no

/-- What is at the top afterwards does not satisfy the condition. -/
theorem top?_popWhile {p : α → Bool} {t : Heap α} {x : α}
    (top : (t.popWhile le p).2.top? = some x) : ¬ p x :=
  top?_popAtMost (Nat.le_refl _) top

/-! ## Ordering anew -/

theorem isOrdered_heapify (total : ∀ a b, le a b || le b a)
    (trans : ∀ a b c, le a b → le b c → le a c) (t : Heap α) : IsOrdered le (heapify le t) := by
  induction t with
  | empty => trivial
  | node x l r hl hr =>
    refine isOrdered_sink total trans (fun c h => ?_) (fun c h => by simpa using h) hl hr
    have := total c x
    simp_all

theorem isOrdered_filter (total : ∀ a b, le a b || le b a)
    (trans : ∀ a b c, le a b → le b c → le a c) (keep : α → Bool) (t : Heap α) :
    IsOrdered le (t.filter le keep) := by
  unfold filter
  extract_lets kept front
  split
  · exact isOrdered_heapify total trans _
  · exact isOrdered_foldl_push total trans isOrdered_empty kept

end BuildPipeline.Heap
