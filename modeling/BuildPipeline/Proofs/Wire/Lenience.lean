import BuildPipeline.Proofs.Wire.Formats

/-!
What a text may change without changing the value that is decoded from it (`Format.lenient`). Any
form of the value will do, at every depth, with any white space between its tokens. Two things are
not free: the text may not nest deeper than texts may, even where the one that is written does not,
and what goes through a buffer may hold no number out of range, not even where nobody asks for it.
-/

namespace BuildPipeline.Wire

open Json (inRange)

namespace Format

/-- Every text of a form of a value is decoded to the same as the text that is written for the
value. What is written is one of the forms. No text of a JSON value that has a field twice is
decoded. -/
theorem lenient (format : Format) :
    (∀ v : format.Value, (format.codec.write v).InWords →
      (format.codec.write v).depth ≤ maxDepth →
        format.Form (format.sent v) (format.codec.write v) ∧
        ∀ (j : Json) (text : String), format.Form (format.sent v) j → j.IsText text →
          j.depth ≤ maxDepth → (format.isTagged → ∀ n ∈ j.numbers, inRange n) →
            format.codec.decode text.toUTF8.data.toList = .ok (format.sent v) ∧
            format.codec.decode text.toUTF8.data.toList =
              format.codec.decode (format.codec.encode v).toUTF8.data.toList) ∧
    ∀ (j : Json) (text : String), format.Doubled j → j.IsText text →
      ∃ fault, format.codec.decode text.toUTF8.data.toList = .error fault := by
  refine ⟨fun v words shallow => ?_, fun j text doubled isText => ?_⟩
  · have form := form_write format v words
    refine ⟨form, fun j text other isText within range => ?_⟩
    have decoded := (format.codec.decode_of_isText isText).trans (read_of_form other within range)
    exact ⟨decoded, decoded.trans (decode_write form ⟨shallow, words⟩).symm⟩
  · rw [format.codec.decode_of_isText isText]
    cases read : format.codec.read .streamed maxDepth j.draft with
    | ok v => exact absurd read (refused_of_doubled doubled)
    | error fault => exact ⟨fault, rfl⟩

/-- A repository with a child. -/
def pair : Repository :=
  { kind := .multiGit, children := [{ kind := .git, branch := some "b" }] }

/-- Another form of it: the child is the array of its fields, the fields are out of order, one that
is absent is null, and one member is unknown. -/
def oddPair : Json :=
  .object [("x", .null),
    ("children", .array [.array [.text "GIT", .null, .text "b", .null, .array []]]),
    ("uri", .null), ("type", .text "MULTI_GIT")]

/-- The kind of the child stands twice. -/
def spoiledPair : Json :=
  .object [("children", .array [.object
    [("type", .text "GIT"), ("uri", .null), ("type", .text "GIT")]]), ("type", .text "MULTI_GIT")]

/-- A form of a request: the tag is the last member, and one member is unknown. -/
def oddHello : Json :=
  .object [("x", .number 5), ("version", .text "1"), ("type", .text "Hello")]

/-- A text of it with white space. -/
def oddHelloText : String :=
  " \x7b\"x\": 5,\n\"version\":\"1\" ,\"type\":\t\"Hello\"\x7d\n"

/-- The tokens of the text, each with the white space before it. -/
def oddHelloPieces : List (List Char × Json.Token) :=
  [([' '], .objectOpen), ([], .text "x"), ([], .colon), ([' '], .number 5), ([], .comma),
    (['\n'], .text "version"), ([], .colon), ([], .text "1"), ([' '], .comma),
    ([], .text "type"), ([], .colon), (['\t'], .text "Hello"), ([], .objectClose)]

theorem form_oddPair : Wire.repository.Form pair oddPair := by
  have kind (k : RepositoryKind) : Wire.repositoryKind.Form k (.text k.name) :=
    writes_repositoryKind k nofun
  have child : Wire.repository.Form { kind := .git, branch := some "b" }
      (.array [.text "GIT", .null, .text "b", .null, .array []]) :=
    .repository (.array (.cons (kind .git) (.cons .none (.cons (.some (.text "b") nofun)
      (.cons .none (.cons (.list .nil) .nil))))) rfl)
  have known : (repositoryFields Wire.repository).Members
      (.multiGit, none, none, none, [{ kind := .git, branch := some "b" }], ())
      [("type", .text "MULTI_GIT"), ("uri", .null),
        ("children", .array [.array [.text "GIT", .null, .text "b", .null, .array []]])] :=
    .keep (kind .multiGit) (.keep .none (.leave rfl (.leave rfl
      (.keep (.list (.cons child .nil)) .nil))))
  have others : ∀ m ∈ [("x", Json.null)],
      m.1 ∉ (repositoryFields Wire.repository).names ∧ m.2.isScalar := fun m mem => by
    rw [List.mem_singleton.1 mem]
    decide
  exact .repository (.object (.mk (by decide) known others (List.reverse_perm _).symm) rfl)

theorem doubled_spoiledPair : Wire.repository.Doubled spoiledPair := by
  have child : Wire.repository.Doubled
      (.object [("type", .text "GIT"), ("uri", .null), ("type", .text "GIT")]) :=
    .repository (.object (.twice (.head _) (by decide)))
  exact .repository (.object (.within (.tail (by decide) (.tail (by decide) (.tail (by decide)
    (.tail (by decide) .head)))) (.head _) (.list (.head _) child)))

theorem form_oddHello : Tagged.Form requestVariants (.hello "1") oddHello := by
  have rest : Fields.Object (.cons (.required "version" .text) .nil) ("1", ())
      [("version", .text "1"), ("x", .number 5)] :=
    .mk (by decide) (.keep (.text "1") .nil) (fun m (mem : m ∈ [("x", Json.number 5)]) => by
      rw [List.mem_singleton.1 mem]
      decide) (.refl _)
  have other : ∀ m ∈ [("version", Json.text "1"), ("x", .number 5)], m.1 ≠ Tagged.tag := by
    decide
  exact .object (.tail _ (.head _)) rest other (List.reverse_perm _).symm

theorem isText_oddHelloText : oddHello.IsText oddHelloText := by
  have blank : ∀ piece ∈ oddHelloPieces, ∀ c ∈ piece.1, Json.isSpace c := by
    simp [oddHelloPieces, Json.isSpace]
  have last : ∀ c ∈ ['\n'], Json.isSpace c := by simp [Json.isSpace]
  have five : Json.Token.chars (.number 5) = ['5'] := by
    rw [Json.Token.chars, Text.Decimal.write, Text.Decimal.digits]
    rfl
  have spaced := Json.spaced_pieces blank last
  simp only [oddHelloPieces, List.flatMap_cons, five] at spaced
  exact spaced

/-- The pair and the request are decoded from their other forms, and the spoiled pair is not. -/
theorem lenient_odd :
    repository.codec.decode oddPair.render.toUTF8.data.toList = .ok pair ∧
      request.codec.decode oddHelloText.toUTF8.data.toList = .ok (.hello "1") ∧
      ∃ fault, repository.codec.decode spoiledPair.render.toUTF8.data.toList = .error fault := by
  refine ⟨?_, ?_, (lenient repository).2 _ _ doubled_spoiledPair (Json.isText_render _)⟩
  · have shallow : (repository.codec.write pair).depth ≤ maxDepth := by decide
    exact (((lenient repository).1 pair nofun shallow).2 _ _ form_oddPair (Json.isText_render _)
      (by decide) nofun).1
  · have range : ∀ n ∈ oddHello.numbers, inRange n := fun n mem => by
      rw [List.mem_singleton.1 mem]
      exact Json.inRange_of_le (by decide)
    exact (((lenient request).1 (.hello "1") nofun (by decide)).2 _ _ form_oddHello
      isText_oddHelloText (by decide) fun _ => range).1

/-! ## The limits -/

/-- Repositories of one kind, each but the last with the next one as its only child. -/
def nest : Nat → Repository
  | 0 => {}
  | levels + 1 => { children := [nest levels] }

/-- A form of it: the last repository is the array of its fields. -/
def nestArray : Nat → Json
  | 0 => .array [.text "NONE", .null, .null, .null, .array []]
  | levels + 1 => .object [("type", .text "NONE"), ("children", .array [nestArray levels])]

theorem write_nest_succ (levels : Nat) : Wire.repository.write (nest (levels + 1)) =
    .object [("type", .text "NONE"),
      ("children", .array [Wire.repository.write (nest levels)])] := by
  rw [write_repository]
  rfl

theorem depth_write_nest (levels : Nat) :
    (Wire.repository.write (nest levels)).depth = 2 * levels + 1 := by
  induction levels with
  | zero => rfl
  | succ levels ih =>
      rw [write_nest_succ]
      simp only [Json.depth, Json.memberDepth, Json.elementDepth, ih]
      omega

theorem inWords_write_nest (levels : Nat) : (Wire.repository.write (nest levels)).InWords := by
  have none_ : (Wire.repository.write (nest levels)).numbers = [] := by
    induction levels with
    | zero => rfl
    | succ levels ih =>
        rw [write_nest_succ]
        simp only [Json.numbers, Json.memberNumbers, Json.elementNumbers, ih, List.append_nil]
  rw [Json.InWords, none_]
  exact List.forall_mem_nil _

theorem form_nestArray (levels : Nat) : Wire.repository.Form (nest levels) (nestArray levels) := by
  have kind : Wire.repositoryKind.Form .none (.text "NONE") := writes_repositoryKind .none nofun
  induction levels with
  | zero =>
      exact .repository (.array (.cons kind (.cons .none (.cons .none (.cons .none
        (.cons (.list .nil) .nil))))) rfl)
  | succ levels ih =>
      have known : (repositoryFields Wire.repository).Members
          (.none, none, none, none, [nest levels], ())
          [("type", .text "NONE"), ("children", .array [nestArray levels])] :=
        .keep kind (.leave rfl (.leave rfl (.leave rfl (.keep (.list (.cons ih .nil)) .nil))))
      exact .repository (.object (.mk (by decide) known (fun m (mem : m ∈ []) => nomatch mem)
        (.refl _)) rfl)

/-- The list of the children of the last repository is one level too deep. -/
theorem refused_nestArray (levels : Nat) (source : Source) :
    Wire.repository.read source (2 * levels + 1) (nestArray levels).draft = .error .malformed := by
  induction levels with
  | zero => cases source <;> rfl
  | succ levels ih =>
      have children : (Codec.list Wire.repository).read source (2 * levels + 2)
          (.array [(nestArray levels).draft]) = .error .malformed := by
        change [(nestArray levels).draft].mapM (Wire.repository.read source (2 * levels + 1)) = _
        rw [List.mapM_cons, ih]
        rfl
      have kind : Wire.repositoryKind.read source (2 * levels + 2) (.text (some "NONE")) =
          .ok .none := rfl
      rw [read_repository]
      change ((repositoryFields Wire.repository).readObject source (2 * levels + 2)
        [(some "type", .text (some "NONE")),
          (some "children", .array [(nestArray levels).draft])]).map _ = _
      simp [Fields.readObject, Fields.readMembers, repositoryFields, Fields.accept,
        Field.defaulted, Field.optional, Fields.noSlots, kind, children, Except.map, Except.bind]

/-- A number that has no place in binary floating point. -/
def vast : Nat :=
  Nat.pow 10 400

theorem digits_power (k : Nat) : Text.Decimal.digits (Nat.pow 10 k) = 1 :: List.replicate k 0 := by
  induction k with
  | zero =>
      rw [Text.Decimal.digits]
      rfl
  | succ k ih =>
      have power : Nat.pow 10 (k + 1) = 10 * Nat.pow 10 k := Nat.mul_comm _ _
      have positive : 0 < Nat.pow 10 k := Nat.pow_pos (by decide)
      have front : Nat.pow 10 (k + 1) / 10 = Nat.pow 10 k := by omega
      have last : Nat.pow 10 (k + 1) % 10 = 0 := by omega
      rw [Text.Decimal.digits, if_neg (by omega), front, last, ih, List.replicate_succ']
      rfl

theorem isSound_vast (room : Nat) : (Json.number vast).draft.isSound room = false := by
  have digits : Text.Decimal.digits vast = 1 :: List.replicate 400 0 := by
    unfold vast
    generalize 400 = k
    exact digits_power k
  have scaled : (Json.Numeral.ofWhole (1 :: List.replicate 400 0)).inRange = false := by
    decide +kernel
  rw [Json.draft, digits]
  exact scaled

/-- A ping with a member that requests do not have. -/
def pingWith (n : Nat) : Json :=
  .object [("type", .text "Ping"), ("x", .number n)]

theorem form_pingWith (n : Nat) : Tagged.Form requestVariants .ping (pingWith n) := by
  have rest : Fields.nil.Object () [("x", .number n)] :=
    .mk .nil .nil (fun m mem => by
      rw [List.mem_singleton.1 mem]
      exact ⟨nofun, rfl⟩) (.refl _)
  have name : "x" ≠ Tagged.tag := by decide
  have other : ∀ m ∈ [("x", Json.number n)], m.1 ≠ Tagged.tag := fun m mem => by
    rw [List.mem_singleton.1 mem]
    exact name
  exact .object (.head _) rest other (.refl _)

/-- The buffer takes in no number that is out of range. -/
theorem refused_pingWith {n : Nat} (unsound : (Json.number n).draft.isSound 126 = false) :
    Wire.request.read .streamed maxDepth (pingWith n).draft = .error .malformed := by
  have buffered : Tagged.buffer requestVariants 126
      [(some "type", .text (some "Ping")), (some "x", (Json.number n).draft)] none [] =
        .error .malformed := by
    simp [Tagged.buffer, Tagged.tag, Tagged.variant, Codec.lookup, requestVariants, Variant.plain,
      Variant.of, Except.bind, unsound]
  change (Tagged.buffer requestVariants 126
    [(some "type", .text (some "Ping")), (some "x", (Json.number n).draft)] none [] >>= _) = _
  rw [buffered]
  rfl

/-- Where a text nests too deep although what is written for its value does not, or holds a number
out of range for a buffer, it is not decoded; what is written is. -/
theorem lenient_limits :
    ((repository.codec.write (nest 63)).depth ≤ maxDepth ∧
      repository.codec.decode (repository.codec.encode (nest 63)).toUTF8.data.toList =
        .ok (nest 63) ∧
      repository.Form (repository.sent (nest 63)) (nestArray 63) ∧
      repository.codec.decode (nestArray 63).render.toUTF8.data.toList = .error .malformed) ∧
    ((request.codec.write .ping).depth ≤ maxDepth ∧
      request.codec.decode (request.codec.encode .ping).toUTF8.data.toList = .ok .ping ∧
      request.Form (request.sent .ping) (pingWith vast) ∧ (pingWith vast).depth ≤ maxDepth ∧
      request.codec.decode (pingWith vast).render.toUTF8.data.toList = .error .malformed) := by
  have nestDepth : (repository.codec.write (nest 63)).depth ≤ maxDepth :=
    Nat.le_of_eq (depth_write_nest 63)
  have nestWords : (repository.codec.write (nest 63)).InWords := inWords_write_nest 63
  have pingDepth : (request.codec.write .ping).depth ≤ maxDepth := by decide
  have pingWords : (request.codec.write .ping).InWords := nofun
  refine ⟨⟨nestDepth, ?_, form_nestArray 63, ?_⟩, pingDepth, ?_, form_pingWith vast, ?_, ?_⟩
  · exact decode_write (form_write repository _ nestWords) ⟨nestDepth, nestWords⟩
  · exact (Codec.decode_of_isText _ (Json.isText_render _)).trans (refused_nestArray 63 .streamed)
  · exact decode_write (form_write request .ping pingWords) ⟨pingDepth, pingWords⟩
  · decide
  · exact (Codec.decode_of_isText _ (Json.isText_render _)).trans
      (refused_pingWith (isSound_vast 126))

end Format
end BuildPipeline.Wire
