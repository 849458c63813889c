import BuildPipeline.Path
import Mathlib.Data.String.Basic

/-!
Where a path leads that is made by joining. A text is cut into names at its slashes
(`splitOn_slash`), and a name without a slash that is joined to a directory comes last, however the
directory is written (`getLast?_place_join`). So two different names in one directory stand for two
different places (`place_join_ne`).
-/

namespace BuildPipeline.Path
open String

/-- The cut of a text, of which `back` is cut already into `pieces`, and `piece` has been looked at
since the last slash. -/
def cutFrom (back piece rest : List Char) (pieces : List String) : List String :=
  splitOnAux (ofList (back ++ piece ++ rest)) "/" ⟨utf8Len back⟩ ⟨utf8Len (back ++ piece)⟩ 0 pieces

section Cut

variable (back piece rest : List Char) (pieces : List String)

/-- The end of the text is the end of its last piece. -/
theorem cutFrom_nil : cutFrom back piece [] pieces = (ofList piece :: pieces).reverse := by
  have cut := extract_of_valid back piece []
  rw [← utf8Len_append] at cut
  rw [cutFrom, splitOnAux, if_pos ((atEnd_of_valid (back ++ piece) []).2 rfl), cut]

/-- A slash ends a piece, and any other character belongs to it. -/
theorem cutFrom_cons (c : Char) :
    cutFrom back piece (c :: rest) pieces =
      if c = '/' then cutFrom (back ++ piece ++ ['/']) [] rest (ofList piece :: pieces)
      else cutFrom back (piece ++ [c]) rest pieces := by
  have more : ¬Pos.Raw.atEnd (ofList (back ++ piece ++ c :: rest))
      ⟨utf8Len (back ++ piece)⟩ = true := by
    rw [atEnd_of_valid]
    exact List.cons_ne_nil _ _
  have here := get_of_valid (back ++ piece) (c :: rest)
  have next := next_of_valid (back ++ piece) c rest
  rw [cutFrom, splitOnAux, if_neg more, here, List.headD_cons,
    show Pos.Raw.get "/" 0 = '/' from rfl, next]
  by_cases slash : c = '/'
  · subst slash
    have cut := extract_of_valid back piece ('/' :: rest)
    have stop : (⟨utf8Len (back ++ piece) + '/'.utf8Size⟩ : Pos.Raw).unoffsetBy
        (Pos.Raw.next "/" 0) = ⟨utf8Len (back ++ piece)⟩ := rfl
    rw [← utf8Len_append] at cut
    rw [if_pos BEq.rfl, if_pos rfl]
    dsimp only
    rw [if_pos (show Pos.Raw.atEnd "/" (Pos.Raw.next "/" 0) = true from rfl), stop, cut]
    simp [cutFrom, Nat.add_assoc]
  · have stay : (⟨utf8Len (back ++ piece)⟩ : Pos.Raw).unoffsetBy 0 =
      ⟨utf8Len (back ++ piece)⟩ := rfl
    rw [if_neg (by simpa using slash), if_neg slash, stay, next]
    simp [cutFrom, Nat.add_assoc]

theorem cutFrom_eq :
    cutFrom back piece rest pieces =
      pieces.reverse ++ (rest.splitOnPPrepend (· == '/') piece.reverse).map ofList := by
  induction rest generalizing back piece pieces with
  | nil => simp [cutFrom_nil]
  | cons c rest ih =>
      rw [cutFrom_cons, List.splitOnPPrepend_cons_eq_if]
      by_cases slash : c = '/'
      · rw [if_pos slash, if_pos (beq_iff_eq.2 slash), ih]
        simp
      · rw [if_neg slash, if_neg (by simpa using slash), ih]
        simp

end Cut

/-- A text is cut into names at its slashes. -/
theorem splitOn_slash (text : String) :
    text.splitOn "/" = (text.toList.splitOn '/').map ofList := by
  have cut := cutFrom_eq [] [] text.toList []
  simp only [cutFrom, List.nil_append, ofList_toList, utf8Len_nil, List.reverse_nil] at cut
  rw [List.splitOn_eq_splitOnP, List.splitOnP_eq_splitOnPPrepend]
  exact cut

/-- A name that can only stand for itself. -/
structure Plain (name : String) : Prop where
  some_ : name ≠ ""
  moves : name ≠ "."
  ahead : name ≠ ".."
  whole : '/' ∉ name.toList

theorem splitOn_of_plain {name : String} (plain : Plain name) : name.splitOn "/" = [name] := by
  rw [splitOn_slash, List.splitOn_eq_singleton plain.whole]
  simp

/-- A text behind whose last slash there is such a name. -/
theorem splitOn_of_slash (before : List Char) {name : String} (plain : Plain name) :
    (ofList (before ++ '/' :: name.toList)).splitOn "/" =
      (before.splitOn '/').map ofList ++ [name] := by
  rw [splitOn_slash, toList_ofList, List.splitOn_append_cons_self,
    List.splitOn_eq_singleton plain.whole]
  simp

theorem splitOn_join (directory : String) {name : String} (plain : Plain name) :
    ∃ before, (join directory name).splitOn "/" = before ++ [name] := by
  unfold join
  split
  · exact ⟨[], splitOn_of_plain plain⟩
  · split
    · rename_i ends
      rw [← endsWith_toSlice, Slice.endsWith_string_iff, copy_toSlice] at ends
      obtain ⟨before, whole⟩ := ends
      have text : directory ++ name = ofList (before ++ '/' :: name.toList) := by
        rw [← toList_inj, toList_append, ← whole]
        simp
      exact ⟨_, text ▸ splitOn_of_slash before plain⟩
    · have text : directory ++ "/" ++ name = ofList (directory.toList ++ '/' :: name.toList) := by
        simp [← toList_inj]
      exact ⟨_, text ▸ splitOn_of_slash directory.toList plain⟩

theorem endsInDirectory_join (directory : String) {name : String} (plain : Plain name) :
    endsInDirectory (join directory name) = false := by
  obtain ⟨before, pieces⟩ := splitOn_join directory plain
  simp [endsInDirectory, pieces, plain.some_, plain.moves, plain.ahead]

/-- Where a path leads whose last name stands for itself. -/
theorem getLast?_place_join (directory : String) {name : String} (plain : Plain name) :
    (ofText (join directory name)).place.names.getLast? = some name := by
  obtain ⟨before, pieces⟩ := splitOn_join directory plain
  simp only [place, ofText, pieces, List.filter_append, List.foldl_append]
  simp [plain.some_, plain.moves, climb, plain.ahead]

/-- The empty text leads somewhere else. -/
theorem ne_empty_of_place_join {directory name text : String} (plain : Plain name)
    (same : (ofText (join directory name)).place = (ofText text).place) : text ≠ "" := by
  rintro rfl
  have last := getLast?_place_join directory plain
  rw [same] at last
  simp [place, ofText, splitOn_slash] at last

/-- Two names that stand for themselves lead to two places. -/
theorem place_join_ne {directory a b : String} (plain_a : Plain a) (plain_b : Plain b)
    (ne : a ≠ b) : (ofText (join directory a)).place ≠ (ofText (join directory b)).place := by
  intro same
  have last := getLast?_place_join directory plain_a
  rw [same, getLast?_place_join directory plain_b] at last
  exact ne (Option.some.inj last).symm

end BuildPipeline.Path
