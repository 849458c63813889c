import BuildPipeline.Text.Decimal

/-!
Digits that were written are read back, whatever follows them, as long as it is no further digit
(`Decimal.Blunt`). A number that is written up to a width has exactly that many digits if it is
small enough, and zeros in front of it do not change its value.
-/

namespace BuildPipeline.Text.Decimal

/-- The text does not go on with a digit. -/
def Blunt (cs : List Char) : Prop :=
  ∀ c ∈ cs.head?, digit? c = none

/-- The digits of a number, with zeros in front up to a width. -/
def padded (width n : Nat) : List Nat :=
  List.replicate (width - (digits n).length) 0 ++ digits n

theorem blunt_nil : Blunt [] :=
  nofun

theorem blunt_cons {c : Char} {cs : List Char} (none_ : digit? c = none) : Blunt (c :: cs) := by
  intro c' mem
  rw [List.head?_cons, Option.mem_some_iff] at mem
  exact mem ▸ none_

theorem digit?_digitChar {d : Nat} (small : d < 10) : digit? (digitChar d) = some d := by
  have all : ∀ d < 10, digit? (digitChar d) = some d := by decide
  exact all d small

theorem spanDigits_map {ds : List Nat} {rest : List Char} (small : ∀ d ∈ ds, d < 10)
    (blunt : Blunt rest) : spanDigits (ds.map digitChar ++ rest) = (ds, rest) := by
  induction ds with
  | nil =>
      cases rest with
      | nil => rfl
      | cons c rest => simp [spanDigits, blunt c rfl]
  | cons d ds ih =>
      have first := digit?_digitChar (small d List.mem_cons_self)
      have others := ih fun d mem => small d (List.mem_cons_of_mem _ mem)
      rw [List.map_cons, List.cons_append, spanDigits, first, others]

/-! ## Written numbers -/

theorem value_zeros (k : Nat) (ds : List Nat) : value (List.replicate k 0 ++ ds) = value ds := by
  induction k with
  | zero => rfl
  | succ k ih =>
      rw [List.replicate_succ, List.cons_append, value, List.foldl_cons]
      exact ih

theorem value_padded (width n : Nat) : value (padded width n) = n := by
  rw [padded, value_zeros, value_digits]

theorem digit_lt_of_mem_padded {width n d : Nat} (mem : d ∈ padded width n) : d < 10 := by
  rcases List.mem_append.1 mem with zero | digit
  · rw [List.eq_of_mem_replicate zero]
    decide
  · exact digit_lt_of_mem_digits digit

theorem padded_ne_nil (width n : Nat) : padded width n ≠ [] :=
  List.append_ne_nil_of_right_ne_nil _ (digits_ne_nil n)

theorem writePadded_eq (width n : Nat) : writePadded width n = (padded width n).map digitChar := by
  simp [writePadded, write, padded, digitChar]

theorem length_digits_le {k n : Nat} (small : n < Nat.pow 10 (k + 1)) :
    (digits n).length ≤ k + 1 := by
  induction k generalizing n with
  | zero =>
      rw [digits, if_pos (show n < 10 from small)]
      exact Nat.le_refl _
  | succ k ih =>
      rw [digits]
      split
      · exact Nat.le_add_left _ _
      · have smaller : n / 10 < Nat.pow 10 (k + 1) := by
          rw [Nat.div_lt_iff_lt_mul (by decide)]
          exact small
        have := ih smaller
        simp only [List.length_append, List.length_singleton]
        omega

theorem length_padded {k n : Nat} (small : n < Nat.pow 10 (k + 1)) :
    (padded (k + 1) n).length = k + 1 := by
  have := length_digits_le small
  simp only [padded, List.length_append, List.length_replicate]
  omega

/-- A number of more than one digit has no leading zero. -/
theorem eq_nil_of_leading_zero {n : Nat} {ds : List Nat} (zero : digits n = 0 :: ds) : ds = [] := by
  induction n using digits.induct generalizing ds with
  | case1 n small =>
      rw [digits, if_pos small] at zero
      exact (List.cons.inj zero).2.symm
  | case2 n large ih =>
      rw [digits, if_neg large] at zero
      cases front : digits (n / 10) with
      | nil => exact absurd front (digits_ne_nil _)
      | cons d front' =>
          rw [front, List.cons_append] at zero
          obtain ⟨rfl, -⟩ := List.cons.inj zero
          have none_ : n / 10 = 0 := by
            rw [← value_digits (n / 10), front, ih front]
            rfl
          omega

end BuildPipeline.Text.Decimal
