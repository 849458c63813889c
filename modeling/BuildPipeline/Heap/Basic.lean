/-!
Binary heaps: complete binary trees in which no value goes before the one above it. The rows of the
tree are filled from the left. What comes first stands at the top, and taking the top again and
again gives all values in order.

The order is an argument of every operation. Values that are level in it come out as the shape of
the tree decides: a value that is added stays below one that it is level with; of two children that
are level the right one rises; and where the top is taken away, a child that is level with the value
which falls in from the end of the tree rises above it.
-/

namespace BuildPipeline

/-- A binary tree with values at its nodes. -/
inductive Heap (α : Type) where
  | empty
  | node (top : α) (left right : Heap α)
  deriving DecidableEq, Repr

namespace Heap

variable {α : Type}

/-! ## The values of a heap -/

/-- The value at the top. -/
def top? : Heap α → Option α
  | empty => none
  | node top _ _ => some top

/-- The number of values. -/
def size : Heap α → Nat
  | empty => 0
  | node _ l r => l.size + r.size + 1

/-- The rows of two trees that stand side by side. -/
def besides : List (List α) → List (List α) → List (List α)
  | [], rows => rows
  | rows, [] => rows
  | row :: rows, other :: others => (row ++ other) :: besides rows others

/-- The rows of a tree, from the top down. -/
def rows : Heap α → List (List α)
  | empty => []
  | node top l r => [top] :: besides l.rows r.rows

/-- The values, row by row. -/
def toList (t : Heap α) : List α :=
  t.rows.flatten

/-! ## Places -/

/-- The way from the top to a place, as turns to the right or not. The places are counted from one,
row by row. -/
def way (place : Nat) : List Bool :=
  (List.range place.log2).reverse.map place.testBit

/-- A tree from its top and its left part. If the top of that part goes first, the two values change
places. -/
def overLeft (le : α → α → Bool) (p : α) (l r : Heap α) : Heap α :=
  match l with
  | empty => node p empty r
  | node q ll lr => if le p q then node p (node q ll lr) r else node q (node p ll lr) r

/-- A tree from its top and its right part. If the top of that part goes first, the two values
change places. -/
def overRight (le : α → α → Bool) (p : α) (l r : Heap α) : Heap α :=
  match r with
  | empty => node p l empty
  | node q rl rr => if le p q then node p l (node q rl rr) else node q l (node p rl rr)

/-- Adds a value at the free place at the end of a way. It rises until the value above it goes
first, or is level with it. -/
def pushAt (le : α → α → Bool) (x : α) : List Bool → Heap α → Heap α
  | _, empty => node x empty empty
  | true :: turns, node p l r => overRight le p l (pushAt le x turns r)
  | turns, node p l r => overLeft le p (pushAt le x turns.tail l) r

/-- Takes away the value at the end of a way. -/
def detach : List Bool → Heap α → Option (α × Heap α)
  | _, empty => none
  | true :: turns, node p l r =>
    match detach turns r with
    | none => some (p, l)
    | some (last, r) => some (last, node p l r)
  | turns, node p l r =>
    match detach turns.tail l with
    | none => some (p, r)
    | some (last, l) => some (last, node p l r)

/-! ## Operations -/

/-- Adds a value. -/
def push (le : α → α → Bool) (t : Heap α) (x : α) : Heap α :=
  pushAt le x (way (t.size + 1)) t

/-- The child that comes first, and whether it is the right one. -/
def firstChild? (le : α → α → Bool) (l r : Heap α) : Option (Bool × α) :=
  match l.top?, r.top? with
  | none, none => none
  | some a, none => some (false, a)
  | none, some b => some (true, b)
  | some a, some b => if le b a then some (true, b) else some (false, a)

/-- Puts a value in the place of the top and lets it sink: the child that comes first rises as long
as it is told to. -/
def sink (le rises : α → α → Bool) (x : α) : Heap α → Heap α
  | empty => empty
  | node _ l r =>
    match firstChild? le l r with
    | none => node x l r
    | some (right, c) =>
      if rises c x then
        if right then node c l (sink le rises x r) else node c (sink le rises x l) r
      else node x l r

/-- A tree from two parts and the value that falls in at the top. Level children rise. -/
def settle (le : α → α → Bool) (x : α) (l r : Heap α) : Heap α :=
  sink le le x (node x l r)

/-- Takes away the top. The last value falls in for it. -/
def pop? (le : α → α → Bool) : Heap α → Option (α × Heap α)
  | empty => none
  | node top l r =>
    match way (node top l r).size with
    | true :: turns =>
      match detach turns r with
      | none => some (top, l)
      | some (last, r) => some (top, settle le last l r)
    | turns =>
      match detach turns.tail l with
      | none => some (top, r)
      | some (last, l) => some (top, settle le last l r)

/-- Takes away tops that satisfy a condition, at most so many. -/
def popAtMost (le : α → α → Bool) (p : α → Bool) : Nat → Heap α → List α × Heap α
  | 0, t => ([], t)
  | n + 1, t =>
    match pop? le t with
    | none => ([], t)
    | some (x, rest) =>
      if p x then
        let (xs, left) := popAtMost le p n rest
        (x :: xs, left)
      else ([], t)

/-- Takes away tops as long as they satisfy a condition. -/
def popWhile (le : α → α → Bool) (p : α → Bool) (t : Heap α) : List α × Heap α :=
  popAtMost le p t.size t

/-- The tree with some values in its rows, just as they come. -/
def ofRows (xs : List α) : Heap α :=
  xs.foldl (push fun _ _ => true) empty

/-- Puts the values of a tree in order, from the bottom up. Level children stay where they are. -/
def heapify (le : α → α → Bool) : Heap α → Heap α
  | empty => empty
  | node x l r => sink le (fun c x => !le x c) x (node x (heapify le l) (heapify le r))

/-- Whether ordering `count` values at once is less work than adding `more` of them one by one. -/
def worthHeapify (count more : Nat) : Bool :=
  let front := count - more
  front < more || 2 * count < more * (if count ≤ 2048 then front.log2 else 11)

/-- Keeps the values that satisfy a condition. They are added one by one, which leaves those in
front of the first one that goes where they are, or all are ordered anew if that is less work. -/
def filter (le : α → α → Bool) (keep : α → Bool) (t : Heap α) : Heap α :=
  let kept := t.toList.filter keep
  let front := (t.toList.takeWhile keep).length
  if worthHeapify kept.length (kept.length - front) then heapify le (ofRows kept)
  else kept.foldl (push le) empty

end Heap
end BuildPipeline
