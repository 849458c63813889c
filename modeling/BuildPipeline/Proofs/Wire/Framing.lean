import BuildPipeline.Wire.Frame

/-!
Bodies that are written one after another to a stream are read back one after another, and a stream
that ends early gives the bodies that are whole in it and then an error, never a piece of a body.
Where a stream is cut is told by how many messages still fit in front of the cut; what is left over
is a proper part of the next message, and whether its header is among it decides the error. A body
that is too large is refused on both sides, and a refused one leaves no byte behind.
-/

namespace BuildPipeline.Wire.Frame

/-- What the writer answers, and the stream with what it wrote behind it. -/
def put (stream body : List UInt8) : Except FrameError Unit × List UInt8 :=
  match write body with
  | .error e => (.error e, stream)
  | .ok bytes => (.ok (), stream ++ bytes)

/-- The stream after bodies were written to it one after another. -/
def putAll (stream : List UInt8) (bodies : List (List UInt8)) : List UInt8 :=
  bodies.foldl (fun written body => (put written body).2) stream

/-- The bytes of a message whose body is small enough. -/
def message (body : List UInt8) : List UInt8 :=
  header body.length ++ body

/-- A reader turns away whatever message announces this size, before it looks at the body. -/
def Refuses (announced : Nat) : Prop :=
  ∀ (ending : Ending) (a b c d : UInt8) (rest : List UInt8), size a b c d = announced →
    read ending (a :: b :: c :: d :: rest) = .error (.tooLarge announced)

variable {body stream rest cut : List UInt8} {bodies : List (List UInt8)} {ending : Ending}

/-! ## Writing -/

theorem length_header (n : Nat) : (header n).length = 4 := rfl

theorem length_message (body : List UInt8) : (message body).length = 4 + body.length := by
  rw [message, List.length_append, length_header]

theorem put_of_le (small : body.length ≤ limit) (stream : List UInt8) :
    put stream body = (.ok (), stream ++ message body) := by
  have fits : write body = .ok (message body) := if_neg (Nat.not_lt.mpr small)
  simp only [put, fits]

theorem put_of_lt (large : limit < body.length) (stream : List UInt8) :
    put stream body = (.error (.tooLarge body.length), stream) := by
  have refused : write body = .error (.tooLarge body.length) := if_pos large
  simp only [put, refused]

theorem putAll_eq (small : ∀ body ∈ bodies, body.length ≤ limit) (stream : List UInt8) :
    putAll stream bodies = stream ++ bodies.flatMap message := by
  induction bodies generalizing stream with
  | nil => simp [putAll]
  | cons body bodies hyp =>
    have further := hyp (fun b mem => small b (List.mem_cons_of_mem _ mem)) (stream ++ message body)
    unfold putAll at further ⊢
    rw [List.foldl_cons, put_of_le (small body List.mem_cons_self), further, List.flatMap_cons,
      List.append_assoc]

theorem putAll_take_eq (small : ∀ body ∈ bodies, body.length ≤ limit) (count : Nat) :
    putAll [] (bodies.take count) = (bodies.take count).flatMap message := by
  have few : ∀ body ∈ bodies.take count, body.length ≤ limit := fun body mem =>
    small body (List.mem_of_mem_take mem)
  rw [putAll_eq few, List.nil_append]

/-! ## Reading -/

theorem readAll_of_error {e : FrameError} (fails : read ending stream = .error e) :
    readAll ending stream = ([], e) := by
  rw [readAll]
  split
  · rename_i e' fails'
    cases fails.symm.trans fails'
    rfl
  · rename_i found
    cases fails.symm.trans found

theorem readAll_of_ok (found : read ending stream = .ok (body, rest)) :
    readAll ending stream = (body :: (readAll ending rest).1, (readAll ending rest).2) := by
  rw [readAll]
  split
  · rename_i fails
    cases fails.symm.trans found
  · rename_i body' rest' found'
    cases found.symm.trans found'
    rfl

/-- The messages in front are read off, whatever follows them. -/
theorem readAll_append (small : ∀ body ∈ bodies, body.length ≤ limit) (ending : Ending)
    (rest : List UInt8) :
    readAll ending (bodies.flatMap message ++ rest) =
      (bodies ++ (readAll ending rest).1, (readAll ending rest).2) := by
  induction bodies with
  | nil => rfl
  | cons body bodies hyp =>
    have first : read ending (message body ++ (bodies.flatMap message ++ rest)) =
        .ok (body, bodies.flatMap message ++ rest) :=
      read_header_append ending (small body List.mem_cons_self)
    rw [List.flatMap_cons, List.append_assoc, readAll_of_ok first,
      hyp fun b mem => small b (List.mem_cons_of_mem _ mem), List.cons_append]

/-- The reader finds no message in less than a header. -/
theorem read_of_length_lt (short : rest.length < 4) :
    read ending rest = .error (missing .closed ending) := by
  match rest, short with
  | [], _ | [_], _ | [_, _], _ | [_, _, _], _ => rfl
  | _ :: _ :: _ :: _ :: _, short => simp at short; omega

/-- Behind a whole header the reader waits for as many bytes as it announces. -/
theorem read_header_of_lt (small : body.length ≤ limit) (short : rest.length < body.length) :
    read ending (header body.length ++ rest) = .error (missing .cutShort ending) := by
  have bounded : body.length < UInt32.size := by unfold limit at small; unfold UInt32.size; omega
  simp only [header, List.cons_append, List.nil_append, read, size_header bounded]
  rw [if_neg (by omega), if_pos short]

/-- A message that is cut gives no body. -/
theorem read_of_cut (small : body.length ≤ limit) (front : rest <+: message body)
    (proper : rest.length < (message body).length) :
    read .closed rest = .error (if rest.length < 4 then .closed else .cutShort) := by
  rw [length_message] at proper
  by_cases short : rest.length < 4
  · rw [if_pos short]
    exact read_of_length_lt short
  · obtain ⟨part, rfl⟩ : header body.length <+: rest := by
      apply List.prefix_of_prefix_length_le (List.prefix_append _ body) front
      rw [length_header]
      omega
    rw [List.length_append, length_header] at proper
    rw [if_neg short]
    exact read_header_of_lt small (by omega)

/-! ## Where a stream is cut -/

/-- A stream that is cut holds some whole messages and a proper part of the next one. -/
theorem exists_cut (front : cut <+: bodies.flatMap message)
    (proper : cut.length < (bodies.flatMap message).length) :
    ∃ (count : Nat) (inside : count < bodies.length) (rest : List UInt8),
      cut = (bodies.take count).flatMap message ++ rest ∧ rest <+: message bodies[count] ∧
        rest.length < (message bodies[count]).length := by
  induction bodies generalizing cut with
  | nil => simp at proper
  | cons body bodies hyp =>
    rw [List.flatMap_cons] at front proper
    by_cases within : cut.length < (message body).length
    · have part : cut <+: message body :=
        List.prefix_of_prefix_length_le front (List.prefix_append _ _) (Nat.le_of_lt within)
      exact ⟨0, by simp, cut, rfl, part, within⟩
    · obtain ⟨later, rfl⟩ : message body <+: cut :=
        List.prefix_of_prefix_length_le (List.prefix_append _ _) front (Nat.not_lt.mp within)
      have behind : later <+: bodies.flatMap message := (List.prefix_append_right_inj _).mp front
      rw [List.length_append, List.length_append] at proper
      obtain ⟨count, inside, rest, rfl, part, short⟩ := hyp behind (by omega)
      refine ⟨count + 1, by simpa using inside, rest, ?_, part, short⟩
      rw [List.take_succ_cons, List.flatMap_cons, List.append_assoc]

/-- The messages in front of a cut are those that are counted. -/
theorem take_prefix_iff {count : Nat} (inside : count < bodies.length)
    (part : rest.length < (message bodies[count]).length) {fewer : Nat} :
    (bodies.take fewer).flatMap message <+: (bodies.take count).flatMap message ++ rest ↔
      fewer ≤ count := by
  constructor
  · intro front
    refine Nat.not_lt.mp fun more => ?_
    obtain ⟨further, split⟩ := List.take_prefix_take_left (l := bodies) (Nat.succ_le_of_lt more)
    rw [← split, List.take_add_one, List.getElem?_eq_getElem inside, Option.toList_some,
      List.flatMap_append, List.flatMap_append, List.append_assoc, List.flatMap_singleton,
      List.prefix_append_right_inj] at front
    have long := front.length_le
    rw [List.length_append] at long
    omega
  · intro le
    obtain ⟨further, split⟩ := List.take_prefix_take_left (l := bodies) le
    rw [← split, List.flatMap_append, List.append_assoc]
    exact List.prefix_append _ _

/-! ## What is refused -/

/-- The reader turns away exactly the sizes above the limit. -/
theorem refuses_iff {announced : Nat} : Refuses announced ↔ limit < announced := by
  constructor
  · intro refuses
    refine Nat.not_le.mp fun small => ?_
    have bounded : announced < UInt32.size := by
      unfold limit at small; unfold UInt32.size; omega
    have refused := refuses .closed _ _ _ _ [] (size_header bounded)
    simp only [read, size_header bounded] at refused
    rw [if_neg (by omega)] at refused
    split at refused <;> cases refused
  · intro large ending a b c d rest announces
    simp only [read, announces]
    rw [if_pos large]

/-! ## The law of the stream -/

/-- Bodies within the limit that are written to a stream are read back in order, and then the
stream is closed. Where the stream is cut, the bodies whose messages lie whole in front of the cut
are read back, and then an error says whether the cut left less than a header. The writer refuses a
body exactly where the reader would refuse its size, and then the stream is as it was. -/
theorem readAll_putAll {bodies : List (List UInt8)}
    (small : ∀ body ∈ bodies, body.length ≤ limit) :
    readAll .closed (putAll [] bodies) = (bodies, .closed) ∧
    (∀ cut : List UInt8, cut <+: putAll [] bodies → cut ≠ putAll [] bodies →
      ∃ (count : Nat) (rest : List UInt8), count < bodies.length ∧
        (∀ fewer ≤ bodies.length, putAll [] (bodies.take fewer) <+: cut ↔ fewer ≤ count) ∧
        cut = putAll [] (bodies.take count) ++ rest ∧
        readAll .closed cut =
          (bodies.take count, if rest.length < 4 then .closed else .cutShort)) ∧
    ∀ stream body : List UInt8,
      ((put stream body).1 ≠ .ok () ↔ Refuses body.length) ∧
      ((put stream body).1 ≠ .ok () →
        put stream body = (.error (.tooLarge body.length), stream)) := by
  have whole := putAll_eq small []
  rw [List.nil_append] at whole
  refine ⟨?_, ?_, ?_⟩
  · have behind : readAll .closed [] = ([], .closed) := readAll_of_error rfl
    have all := readAll_append small .closed []
    rw [List.append_nil, behind, List.append_nil] at all
    rw [whole, all]
  · intro cut front proper
    rw [whole] at front proper
    have short : cut.length < (bodies.flatMap message).length :=
      Nat.lt_of_le_of_ne front.length_le fun same => proper (front.eq_of_length same)
    obtain ⟨count, inside, rest, rfl, part, less⟩ := exists_cut front short
    refine ⟨count, rest, inside, fun fewer _ => ?_, ?_, ?_⟩
    · rw [putAll_take_eq small]
      exact take_prefix_iff inside less
    · rw [putAll_take_eq small]
    · have few : ∀ body ∈ bodies.take count, body.length ≤ limit := fun body mem =>
        small body (List.mem_of_mem_take mem)
      have ends := read_of_cut (small _ (List.getElem_mem inside)) part less
      rw [readAll_append few, readAll_of_error ends, List.append_nil]
  · intro stream body
    rw [refuses_iff]
    by_cases large : limit < body.length
    · rw [put_of_lt large]
      exact ⟨iff_of_true (fun answered => nomatch answered) large, fun _ => rfl⟩
    · rw [put_of_le (Nat.not_lt.mp large)]
      exact ⟨iff_of_false (fun refused => refused rfl) large, fun refused => absurd rfl refused⟩

/-- Three messages, the second without a body, and the same stream cut in front of its last byte. -/
theorem readAll_putAll_three :
    (∀ body ∈ ([[7, 8], [], [9]] : List (List UInt8)), body.length ≤ limit) ∧
    putAll [] [[7, 8], [], [9]] = [0, 0, 0, 2, 7, 8, 0, 0, 0, 0, 0, 0, 0, 1, 9] ∧
    readAll .closed [0, 0, 0, 2, 7, 8, 0, 0, 0, 0, 0, 0, 0, 1, 9] = ([[7, 8], [], [9]], .closed) ∧
    readAll .closed [0, 0, 0, 2, 7, 8, 0, 0, 0, 0, 0, 0, 0, 1] = ([[7, 8], []], .cutShort) := by
  have small : ∀ body ∈ ([[7, 8], [], [9]] : List (List UInt8)), body.length ≤ limit := by decide
  have stream : putAll [] [[7, 8], [], [9]] = [0, 0, 0, 2, 7, 8, 0, 0, 0, 0, 0, 0, 0, 1, 9] := by
    decide
  obtain ⟨whole, cuts, -⟩ := readAll_putAll small
  rw [stream] at whole cuts
  obtain ⟨count, rest, inside, counted, split, found⟩ :=
    cuts [0, 0, 0, 2, 7, 8, 0, 0, 0, 0, 0, 0, 0, 1] (by decide) (by decide)
  have two : 2 ≤ count := (counted 2 (by decide)).mp (by decide)
  obtain rfl : count = 2 := Nat.le_antisymm (Nat.le_of_lt_succ inside) two
  obtain rfl : rest = [0, 0, 0, 1] := by
    have before : putAll [] (List.take 2 [[7, 8], [], [9]]) = [0, 0, 0, 2, 7, 8, 0, 0, 0, 0] := by
      decide
    rw [before] at split
    simpa using split.symm
  exact ⟨small, stream, whole, found⟩

end BuildPipeline.Wire.Frame
