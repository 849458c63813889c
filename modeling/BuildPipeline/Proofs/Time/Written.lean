import BuildPipeline.Proofs.Text.Digits
import BuildPipeline.Time.Written

/-!
A moment that was written reads back as itself (`Moment.parse?_text`). The parts of a written moment
are numbers of a fixed width with a mark behind each, so every reader finds its number and leaves
the mark; only a year outside 0 to 9999 has a width of its own, and a sign in front.
-/

namespace BuildPipeline.Time.Moment

open Text (isSpace)
open Text.Decimal

/-! ## Numbers of a fixed width -/

theorem isSpace_digitChar {d : Nat} (small : d < 10) : isSpace (digitChar d) = false := by
  have all : ∀ d < 10, isSpace (digitChar d) = false := by decide
  exact all d small

theorem skipSpace_cons {c : Char} {rest : List Char} (solid : isSpace c = false) :
    skipSpace (c :: rest) = c :: rest := by
  rw [skipSpace, List.dropWhile_cons_of_neg (by simp [solid])]

theorem skipSpace_digits {ds : List Nat} (small : ∀ d ∈ ds, d < 10) (some_ : ds ≠ [])
    (rest : List Char) : skipSpace (ds.map digitChar ++ rest) = ds.map digitChar ++ rest := by
  cases ds with
  | nil => exact absurd rfl some_
  | cons d ds => exact skipSpace_cons (isSpace_digitChar (small d List.mem_cons_self))

/-- Digits are read whole where the text holds as many as are asked for. -/
theorem digits?_of_width {width : Nat} {ds : List Nat} (length : ds.length = width)
    (small : ∀ d ∈ ds, d < 10) (some_ : ds ≠ []) (rest : List Char) :
    digits? width (ds.map digitChar ++ rest) = some (ds, rest) := by
  have front : (ds.map digitChar ++ rest).take width = ds.map digitChar :=
    List.take_left' (by rw [List.length_map, length])
  have span : spanDigits (ds.map digitChar) = (ds, []) := by
    have := spanDigits_map small blunt_nil
    rwa [List.append_nil] at this
  have back : (ds.map digitChar ++ rest).drop ds.length = rest :=
    List.drop_left' (by rw [List.length_map])
  simp [digits?, front, span, back, some_]

/-- Digits are read whole where no further digit follows them. -/
theorem digits?_of_blunt {ds : List Nat} {rest : List Char} (blunt : Blunt rest)
    (small : ∀ d ∈ ds, d < 10) (some_ : ds ≠ []) :
    digits? (ds.map digitChar ++ rest).length (ds.map digitChar ++ rest) = some (ds, rest) := by
  have span := spanDigits_map small blunt
  have back : (ds.map digitChar ++ rest).drop ds.length = rest :=
    List.drop_left' (by rw [List.length_map])
  simp only [digits?, List.take_length, span, back]
  simp [some_]

theorem twoDigits?_writePadded {n : Nat} (small : n < 100) (rest : List Char) :
    twoDigits? (writePadded 2 n ++ rest) = some (n, rest) := by
  have digit : ∀ d ∈ padded 2 n, d < 10 := fun d mem => digit_lt_of_mem_padded mem
  have some_ := padded_ne_nil 2 n
  rw [twoDigits?, writePadded_eq, skipSpace_digits digit some_,
    digits?_of_width (length_padded (k := 1) small) digit some_]
  exact congrArg (fun n => some (n, rest)) (value_padded 2 n)

theorem value_append_zeros (ds : List Nat) (k : Nat) :
    value (ds ++ List.replicate k 0) = value ds * Nat.pow 10 k := by
  induction k with
  | zero => simp
  | succ k ih =>
      rw [List.replicate_succ', ← List.append_assoc, value_append_singleton, ih, Nat.mul_comm 10]
      exact Nat.mul_assoc _ _ _

/-- A text that begins with a digit begins with no mark. -/
theorem digit?_of_digits {ds : List Nat} {c : Char} {rest rest' : List Char}
    (small : ∀ d ∈ ds, d < 10) (some_ : ds ≠ [])
    (eq : ds.map digitChar ++ rest = c :: rest') : digit? c ≠ none := by
  cases ds with
  | nil => exact absurd rfl some_
  | cons d ds =>
      rw [← (List.cons.inj eq).1, digit?_digitChar (small d List.mem_cons_self)]
      exact Option.some_ne_none d

/-! ## The parts of a moment -/

theorem year?_writeYear (year : Int) {rest : List Char} (blunt : Blunt rest) :
    year? (writeYear year ++ rest) = some (year, rest) := by
  have digit : ∀ n, ∀ d ∈ padded 4 n, d < 10 := fun n d mem => digit_lt_of_mem_padded mem
  have some_ := padded_ne_nil 4
  unfold writeYear
  split
  · rename_i range
    have width : (padded 4 year.toNat).length = 4 :=
      length_padded (k := 3) (show year.toNat < 10000 by omega)
    rw [writePadded_eq, year?, skipSpace_digits (digit _) (some_ _)]
    split
    · rename_i eq
      exact absurd rfl (digit?_of_digits (digit _) (some_ _) eq)
    · rename_i eq
      exact absurd rfl (digit?_of_digits (digit _) (some_ _) eq)
    · rw [digits?_of_width width (digit _) (some_ _) rest]
      simp only [Option.map_some, value_padded, Int.toNat_of_nonneg range.1]
  · rename_i outside
    have read := digits?_of_blunt blunt (digit year.natAbs) (some_ year.natAbs)
    by_cases negative : year < 0
    · rw [if_pos negative, writePadded_eq, List.cons_append, year?, skipSpace_cons (by decide)]
      simp only [read, Option.map_some, value_padded, Option.some.injEq, Prod.mk.injEq, and_true]
      omega
    · rw [if_neg negative, writePadded_eq, List.cons_append, year?, skipSpace_cons (by decide)]
      simp only [read, Option.map_some, value_padded, Option.some.injEq, Prod.mk.injEq, and_true]
      omega

theorem fraction?_point (width n : Nat) {c : Char} (blunt : digit? c = none) (rest : List Char) :
    fraction? ('.' :: (writePadded width n ++ c :: rest)) =
      some (nanosOfPlaces (padded width n), c :: rest) := by
  rw [writePadded_eq, fraction?, digits?_of_blunt (blunt_cons blunt)
    (fun d mem => digit_lt_of_mem_padded mem) (padded_ne_nil width n)]
  rfl

theorem nanosOfPlaces_padded {k n : Nat} (within : k < 9) (fits : n < Nat.pow 10 (k + 1)) :
    nanosOfPlaces (padded (k + 1) n) = n * Nat.pow 10 (9 - (k + 1)) := by
  have length := length_padded fits
  rw [nanosOfPlaces, List.take_of_length_le (by omega), value_append_zeros, value_padded, length]

/-- A fraction is written with the fewest of 3, 6 and 9 digits that are exact, and is read with the
places that are missing. -/
theorem fraction?_writeFraction {nanos : Nat} (small : nanos < nanosPerSecond) {c : Char}
    (blunt : digit? c = none) (mark : c ≠ '.') (rest : List Char) :
    fraction? (writeFraction nanos ++ c :: rest) = some (nanos, c :: rest) := by
  unfold nanosPerSecond at small
  unfold writeFraction
  split
  · rename_i zero
    rw [zero, List.nil_append, fraction?]
    rintro _ ⟨rfl, -⟩
    exact mark rfl
  · split
    · rw [List.cons_append, fraction?_point _ _ blunt, nanosOfPlaces_padded (k := 2) (by decide)
        (show nanos / 1000000 < 1000 by omega)]
      simp only [Option.some.injEq, Prod.mk.injEq, and_true]
      change nanos / 1000000 * 1000000 = nanos
      omega
    · split
      · rw [List.cons_append, fraction?_point _ _ blunt, nanosOfPlaces_padded (k := 5) (by decide)
          (show nanos / 1000 < 1000000 by omega)]
        simp only [Option.some.injEq, Prod.mk.injEq, and_true]
        change nanos / 1000 * 1000 = nanos
        omega
      · rw [List.cons_append, fraction?_point _ _ blunt,
          nanosOfPlaces_padded (k := 8) (by decide) small]
        exact congrArg (fun n => some (n, c :: rest)) (Nat.mul_one nanos)

theorem date?_write (d : Date) {c : Char} (rest : List Char) :
    date? (writeYear d.year ++ '-' :: (writePadded 2 d.month ++ '-' ::
      (writePadded 2 d.day ++ c :: rest))) = some (d, c :: rest) := by
  obtain ⟨year, month, day, real⟩ := d
  have real' := real
  simp only [isDate, Bool.and_eq_true, decide_eq_true_eq] at real'
  obtain ⟨⟨⟨⟨⟨-, -⟩, -⟩, months⟩, -⟩, days⟩ := real'
  have month' : daysIn year month ≤ 31 := by
    unfold daysIn
    split
    · split <;> decide
    all_goals decide
  have mark : ∀ rest, expect? '-' (skipSpace ('-' :: rest)) = some rest := fun rest => rfl
  simp only [date?, year?_writeYear year (blunt_cons (c := '-') (by decide)), mark,
    twoDigits?_writePadded (show month < 100 by omega),
    twoDigits?_writePadded (show day < 100 by omega), Option.bind_eq_bind, Option.bind_some]
  simp [Date.ofParts?, real]

/-- A moment that was written reads back as itself. -/
theorem parse?_text (m : Moment) : parse? m.text = some m := by
  obtain ⟨date, hour, minute, second, nanos, real⟩ := m
  have real' := real
  simp only [isTimeOfDay, Bool.and_eq_true, decide_eq_true_eq] at real'
  obtain ⟨⟨⟨hours, minutes⟩, seconds⟩, fits⟩ := real'
  have mark : ∀ rest, expect? ':' (skipSpace (':' :: rest)) = some rest := fun rest => rfl
  have apart : ∀ rest, separator? ('T' :: rest) = some rest := fun rest => rfl
  have zone : offset? (skipSpace ['Z']) = some (0, []) := rfl
  rw [parse?, text, String.toList_ofList]
  simp only [write, List.append_assoc, List.cons_append, read?, date?_write, apart, mark,
    twoDigits?_writePadded (show hour < 100 by omega),
    twoDigits?_writePadded (show minute < 100 by omega),
    twoDigits?_writePadded (show second < 100 by omega),
    fraction?_writeFraction fits (c := 'Z') (by decide) (by decide), zone,
    Option.bind_eq_bind, Option.bind_some]
  simp [ofParts?, real, skipSpace]

end BuildPipeline.Time.Moment
