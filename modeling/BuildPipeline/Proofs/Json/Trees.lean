import BuildPipeline.Json.Draft
import BuildPipeline.Proofs.Json.Lexing

/-!
A text of a value is read as the tree of the value (`Draft.ofBytes_of_isText`), whatever its depth.
The tree is whole; it is also sound where the value does not nest too deep and its numbers are in
range (`isSound_draft`).
-/

namespace BuildPipeline.Json

open Text.Decimal (digits wordLimit)

mutual

/-- The tree as which a value is read. -/
def draft : Json → Draft
  | null => .null
  | bool b => .bool b
  | number n => .number (.ofWhole (digits n))
  | text s => .text (some s)
  | array xs => .array (elementDrafts xs)
  | object ms => .object (memberDrafts ms)

/-- The trees of some elements. -/
def elementDrafts : List Json → List Draft
  | [] => []
  | x :: xs => draft x :: elementDrafts xs

/-- The names and trees of some members. -/
def memberDrafts : List (String × Json) → List (Option String × Draft)
  | [] => []
  | (name, x) :: ms => (some name, draft x) :: memberDrafts ms

end

mutual

/-- The number of levels that a value nests. -/
def depth : Json → Nat
  | null | bool _ | number _ | text _ => 0
  | array xs => elementDepth xs + 1
  | object ms => memberDepth ms + 1

/-- The number of levels that the deepest of some elements nests. -/
def elementDepth : List Json → Nat
  | [] => 0
  | x :: xs => max (depth x) (elementDepth xs)

/-- The number of levels that the deepest of some members nests. -/
def memberDepth : List (String × Json) → Nat
  | [] => 0
  | (_, x) :: ms => max (depth x) (memberDepth ms)

end

mutual

/-- The numbers in a value. -/
def numbers : Json → List Nat
  | number n => [n]
  | null | bool _ | text _ => []
  | array xs => elementNumbers xs
  | object ms => memberNumbers ms

/-- The numbers in some elements. -/
def elementNumbers : List Json → List Nat
  | [] => []
  | x :: xs => numbers x ++ elementNumbers xs

/-- The numbers in some members. -/
def memberNumbers : List (String × Json) → List Nat
  | [] => []
  | (_, x) :: ms => numbers x ++ memberNumbers ms

end

/-- The tree of a member. -/
def memberDraft (m : String × Json) : Option String × Draft :=
  (some m.1, m.2.draft)

theorem elementDrafts_eq_map (xs : List Json) : elementDrafts xs = xs.map draft := by
  induction xs with
  | nil => rfl
  | cons x xs ih => rw [elementDrafts, ih, List.map_cons]

theorem memberDrafts_eq_map (ms : List (String × Json)) : memberDrafts ms = ms.map memberDraft := by
  induction ms with
  | nil => rfl
  | cons m ms ih => rw [memberDrafts, ih, List.map_cons, memberDraft]

theorem draft_mem_elementDrafts {x : Json} {xs : List Json} (mem : x ∈ xs) :
    x.draft ∈ elementDrafts xs := by
  rw [elementDrafts_eq_map]
  exact List.mem_map_of_mem mem

theorem draft_mem_memberDrafts {name : String} {x : Json} {ms : List (String × Json)}
    (mem : (name, x) ∈ ms) : (some name, x.draft) ∈ memberDrafts ms := by
  rw [memberDrafts_eq_map]
  exact List.mem_map_of_mem mem

theorem elementDepth_le_iff {xs : List Json} {room : Nat} :
    elementDepth xs ≤ room ↔ ∀ x ∈ xs, x.depth ≤ room := by
  induction xs with
  | nil => simp [elementDepth]
  | cons x xs ih => rw [elementDepth, Nat.max_le, ih, List.forall_mem_cons]

theorem memberDepth_le_iff {ms : List (String × Json)} {room : Nat} :
    memberDepth ms ≤ room ↔ ∀ m ∈ ms, m.2.depth ≤ room := by
  induction ms with
  | nil => simp [memberDepth]
  | cons m ms ih => rw [memberDepth, Nat.max_le, ih, List.forall_mem_cons]

theorem depth_array_le_iff {xs : List Json} {room : Nat} :
    (array xs).depth ≤ room + 1 ↔ ∀ x ∈ xs, x.depth ≤ room := by
  rw [depth, Nat.add_le_add_iff_right, elementDepth_le_iff]

theorem depth_object_le_iff {ms : List (String × Json)} {room : Nat} :
    (object ms).depth ≤ room + 1 ↔ ∀ m ∈ ms, m.2.depth ≤ room := by
  rw [depth, Nat.add_le_add_iff_right, memberDepth_le_iff]

theorem mem_elementNumbers {xs : List Json} {n : Nat} :
    n ∈ elementNumbers xs ↔ ∃ x ∈ xs, n ∈ x.numbers := by
  induction xs with
  | nil => simp [elementNumbers]
  | cons x xs ih => simp [elementNumbers, ih]

theorem mem_memberNumbers {ms : List (String × Json)} {n : Nat} :
    n ∈ memberNumbers ms ↔ ∃ m ∈ ms, n ∈ m.2.numbers := by
  induction ms with
  | nil => simp [memberNumbers]
  | cons m ms ih => simp [memberNumbers, ih]

/-! ## Whole and sound trees -/

mutual

theorem isWhole_draft (j : Json) : j.draft.isWhole = true := by
  match j with
  | null | bool b | number n | text s => rfl
  | array xs => exact allWhole_elementDrafts xs
  | object ms => exact membersWhole_memberDrafts ms

theorem allWhole_elementDrafts (xs : List Json) : Draft.allWhole (elementDrafts xs) = true := by
  match xs with
  | [] => rfl
  | x :: xs =>
      rw [elementDrafts, Draft.allWhole, isWhole_draft x, allWhole_elementDrafts xs, Bool.and_self]

theorem membersWhole_memberDrafts (ms : List (String × Json)) :
    Draft.membersWhole (memberDrafts ms) = true := by
  match ms with
  | [] => rfl
  | (name, x) :: ms =>
      rw [memberDrafts, Draft.membersWhole, isWhole_draft x, membersWhole_memberDrafts ms,
        Bool.and_self]

end

/-- Whether a number is in range where it is read. -/
def inRange (n : Nat) : Prop :=
  (Numeral.ofWhole (digits n)).inRange = true

mutual

theorem isSound_draft {j : Json} {room : Nat} (shallow : j.depth ≤ room)
    (range : ∀ n ∈ j.numbers, inRange n) : j.draft.isSound room = true := by
  match j, room with
  | null, room | bool b, room | text s, room => simp [draft, Draft.isSound]
  | number n, room => exact range n List.mem_cons_self
  | array xs, 0 | object ms, 0 => simp [depth] at shallow
  | array xs, room + 1 =>
      exact allSound_elementDrafts (Nat.le_of_succ_le_succ shallow) range
  | object ms, room + 1 =>
      exact membersSound_memberDrafts (Nat.le_of_succ_le_succ shallow) range

theorem allSound_elementDrafts {xs : List Json} {room : Nat} (shallow : elementDepth xs ≤ room)
    (range : ∀ n ∈ elementNumbers xs, inRange n) :
    Draft.allSound room (elementDrafts xs) = true := by
  match xs with
  | [] => rfl
  | x :: xs =>
      obtain ⟨first, others⟩ := Nat.max_le.1 shallow
      rw [elementDrafts, Draft.allSound,
        isSound_draft first fun n mem => range n (List.mem_append_left _ mem),
        allSound_elementDrafts others fun n mem => range n (List.mem_append_right _ mem)]
      rfl

theorem membersSound_memberDrafts {ms : List (String × Json)} {room : Nat}
    (shallow : memberDepth ms ≤ room) (range : ∀ n ∈ memberNumbers ms, inRange n) :
    Draft.membersSound room (memberDrafts ms) = true := by
  match ms with
  | [] => rfl
  | (name, x) :: ms =>
      obtain ⟨first, others⟩ := Nat.max_le.1 shallow
      rw [memberDrafts, Draft.membersSound,
        isSound_draft first fun n mem => range n (List.mem_append_left _ mem),
        membersSound_memberDrafts others fun n mem => range n (List.mem_append_right _ mem)]
      rfl

end

/-! ## Numbers of 64 bits -/

theorem le_foldl_digits (ds : List Nat) (n : Nat) : n ≤ ds.foldl (fun n d => 10 * n + d) n := by
  induction ds generalizing n with
  | nil => exact Nat.le_refl n
  | cons d ds ih =>
      have later := ih (10 * n + d)
      rw [List.foldl_cons]
      omega

theorem absorb_digits {ds : List Nat} {n : Nat}
    (fits : ds.foldl (fun n d => 10 * n + d) n ≤ wordLimit) :
    Numeral.absorb n ds = (ds.foldl (fun n d => 10 * n + d) n, 0) := by
  induction ds generalizing n with
  | nil => rfl
  | cons d ds ih =>
      rw [List.foldl_cons] at fits ⊢
      rw [Numeral.absorb, if_pos (Nat.le_trans (le_foldl_digits ds _) fits), ih fits]

/-- A number of 64 bits is read as itself. -/
theorem ofWhole_digits {n : Nat} (fits : n ≤ wordLimit) :
    Numeral.ofWhole (digits n) = .natural n := by
  have value : (digits n).foldl (fun n d => 10 * n + d) 0 = n := Text.Decimal.value_digits n
  have whole : Numeral.absorb 0 (digits n) = (n, 0) := by
    rw [absorb_digits (by rwa [value]), value]
  simp only [Numeral.ofWhole, whole]

theorem inRange_of_le {n : Nat} (fits : n ≤ wordLimit) : inRange n := by
  rw [inRange, ofWhole_digits fits]
  rfl

/-! ## Reading -/

namespace Draft

/-- Where a value may come next, whatever does not end an array is the front of a value. -/
theorem step_front {want : Want} (next : want = .value ∨ want = .element) (frames : List Frame)
    (lexeme : Lexeme) (more : lexeme ≠ .arrayClose) :
    step (.within want frames) lexeme = stepValue frames lexeme := by
  rcases next with rfl | rfl
  · rfl
  · rcases frames with _ | ⟨frame, frames⟩
    · rfl
    · cases frame with
      | elements before =>
          cases lexeme with
          | arrayClose => exact absurd rfl more
          | _ => rfl
      | members before | member before name => rfl

mutual

/-- The tokens of a value, where one may come next, hand its tree to the innermost container. -/
theorem foldl_tokens (j : Json) {want : Want} (next : want = .value ∨ want = .element)
    (frames : List Frame) :
    (j.tokens.map Token.lexeme).foldl step (.within want frames) = receive j.draft frames := by
  match j with
  | .null | .bool b | .number n | .text s | .array [] | .object [] =>
      simp only [tokens, List.map_cons, List.map_nil, List.foldl_cons, List.foldl_nil,
        Token.lexeme]
      rw [step_front next]
      · rfl
      · exact nofun
  | .array (x :: xs) =>
      have front : step (.within want frames) .arrayOpen =
          .within .element (.elements [] :: frames) := step_front next frames _ nofun
      simp only [tokens, List.map_cons, List.map_append, List.foldl_cons, List.foldl_append,
        Token.lexeme]
      rw [front, foldl_tokens x (.inr rfl), receive, foldl_elementTokens xs]
      rfl
  | .object ((name, x) :: ms) =>
      have front : step (.within want frames) .objectOpen =
          .within .entry (.members [] :: frames) := step_front next frames _ nofun
      simp only [tokens, List.map_cons, List.map_append, List.foldl_cons, List.foldl_append,
        Token.lexeme]
      have name_ : step (step (.within .entry (.members [] :: frames)) (.text (some name))) .colon =
          .within .value (.member [] (some name) :: frames) := rfl
      rw [front, name_, foldl_tokens x (.inl rfl), receive, foldl_memberTokens ms]
      rfl

theorem foldl_elementTokens (xs : List Json) (before : List Draft) (frames : List Frame) :
    ((elementTokens xs).map Token.lexeme).foldl step (.within .more (.elements before :: frames)) =
      receive (.array (before.reverse ++ elementDrafts xs)) frames := by
  match xs with
  | [] =>
      rw [elementDrafts, List.append_nil]
      rfl
  | x :: xs =>
      simp only [elementTokens, List.map_cons, List.map_append, List.foldl_cons,
        List.foldl_append, Token.lexeme]
      have comma : step (.within .more (.elements before :: frames)) .comma =
          .within .value (.elements before :: frames) := rfl
      rw [comma, foldl_tokens x (.inl rfl), receive, foldl_elementTokens xs, elementDrafts,
        List.reverse_cons, List.append_assoc, List.singleton_append]

theorem foldl_memberTokens (ms : List (String × Json)) (before : List (Option String × Draft))
    (frames : List Frame) :
    ((memberTokens ms).map Token.lexeme).foldl step (.within .more (.members before :: frames)) =
      receive (.object (before.reverse ++ memberDrafts ms)) frames := by
  match ms with
  | [] =>
      rw [memberDrafts, List.append_nil]
      rfl
  | (name, x) :: ms =>
      simp only [memberTokens, List.map_cons, List.map_append, List.foldl_cons,
        List.foldl_append, Token.lexeme]
      have member : step (step (step (.within .more (.members before :: frames)) .comma)
          (.text (some name))) .colon = .within .value (.member before (some name) :: frames) := rfl
      rw [member, foldl_tokens x (.inl rfl), receive, foldl_memberTokens ms, memberDrafts,
        List.reverse_cons, List.append_assoc, List.singleton_append]

end

/-- A text of a value is read as the tree of the value. -/
theorem ofBytes_of_isText {j : Json} {text : String} (isText : j.IsText text) :
    ofBytes text.toUTF8.data.toList = (j.draft, false) := by
  rw [ofBytes, Lexeme.ofBytes_of_isText isText, ofLexemes, foldl_tokens j (.inl rfl)]
  rfl

end Draft
end BuildPipeline.Json
