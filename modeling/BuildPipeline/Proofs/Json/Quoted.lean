import BuildPipeline.Json.Lexeme
import BuildPipeline.Json.Value

/-!
A string that was written is read back. Inside the quotes every character is either its UTF-8 bytes,
which hold no quote, no backslash and no control character, or an escape. The pieces that are read
(`Lexeme.pieces`) stand for the same bytes again, so the text is the one that was written
(`Lexeme.one?_quoted`).
-/

namespace BuildPipeline

/-- The bytes of a row of characters, in UTF-8. -/
def Text.bytes (cs : List Char) : List UInt8 :=
  cs.flatMap String.utf8EncodeChar

namespace Text

@[simp]
theorem bytes_nil : bytes [] = [] :=
  rfl

@[simp]
theorem bytes_cons (c : Char) (cs : List Char) :
    bytes (c :: cs) = String.utf8EncodeChar c ++ bytes cs :=
  List.flatMap_cons

@[simp]
theorem bytes_append (cs ds : List Char) : bytes (cs ++ ds) = bytes cs ++ bytes ds :=
  List.flatMap_append

theorem toByteArray_bytes (s : String) : (bytes s.toList).toByteArray = s.toByteArray :=
  String.utf8Encode_toList

theorem toList_toUTF8 (s : String) : s.toUTF8.data.toList = bytes s.toList := by
  rw [String.toUTF8_eq_toByteArray, ← toByteArray_bytes, List.data_toByteArray]

theorem fromUTF8?_bytes (s : String) : String.fromUTF8? ⟨(bytes s.toList).toArray⟩ = some s := by
  have same : (⟨(bytes s.toList).toArray⟩ : ByteArray) = s.toByteArray := by
    rw [← toByteArray_bytes, ← List.data_toByteArray]
  rw [same, String.fromUTF8?, dif_pos s.isValidUTF8]
  rfl

end Text

namespace Json.Lexeme

open Text (bytes)

/-! ## Bytes that stand for themselves -/

/-- A byte that may stand inside a string as it is. -/
def Plain (b : UInt8) : Prop :=
  0x20 ≤ b ∧ b ≠ 0x22 ∧ b ≠ 0x5C

theorem string?_of_plain {b : UInt8} (plain : Plain b) (rest : List UInt8) :
    string? (b :: rest) = (string? rest).map fun (ps, after) => (.byte b :: ps, after) := by
  obtain ⟨visible, quote, backslash⟩ := plain
  rw [string?]
  · rw [if_neg]
    · cases string? rest <;> rfl
    · rintro (hidden | eq)
      · exact absurd hidden (UInt8.not_lt.2 visible)
      · exact backslash eq
  all_goals simp_all

theorem string?_of_all_plain {bs : List UInt8} (plain : ∀ b ∈ bs, Plain b) (rest : List UInt8) :
    string? (bs ++ rest) =
      (string? rest).map fun (ps, after) => (bs.map .byte ++ ps, after) := by
  induction bs with
  | nil => simp
  | cons b bs ih =>
      have others := ih fun b mem => plain b (List.mem_cons_of_mem _ mem)
      rw [List.cons_append, string?_of_plain (plain b List.mem_cons_self), others, Option.map_map]
      rfl

theorem plain_of_high {b : UInt8} (high : 0x80 ≤ b) : Plain b := by
  have high' : 0x80 ≤ b.toNat := UInt8.le_iff_toNat_le.1 high
  refine ⟨UInt8.le_iff_toNat_le.2 ?_, ?_, ?_⟩
  · have : (0x20 : UInt8).toNat = 32 := rfl
    omega
  · rintro rfl
    exact absurd high' (by decide)
  · rintro rfl
    exact absurd high' (by decide)

theorem high_ofNat {n : Nat} (low : 128 ≤ n) (byte : n < 256) : 0x80 ≤ UInt8.ofNat n := by
  rw [UInt8.le_iff_toNat_le, UInt8.toNat_ofNat']
  have : (0x80 : UInt8).toNat = 128 := rfl
  omega

theorem plain_of_ascii {c : Char} (visible : 32 ≤ c.toNat) (ascii : c.toNat ≤ 127)
    (quote : c ≠ '"') (backslash : c ≠ '\\') : Plain (UInt8.ofNat c.toNat) := by
  have same : ∀ d : Char, c.toNat = d.toNat → c = d := fun d eq => Char.toNat_inj.1 eq
  have byte : (UInt8.ofNat c.toNat).toNat = c.toNat := by
    rw [UInt8.toNat_ofNat']
    exact Nat.mod_eq_of_lt (by omega)
  refine ⟨UInt8.le_iff_toNat_le.2 ?_, fun eq => quote (same _ ?_),
    fun eq => backslash (same _ ?_)⟩
  · rw [byte]
    exact visible
  · rw [← byte, eq]
    rfl
  · rw [← byte, eq]
    rfl

/-- The bytes of a character that needs no escape. -/
theorem plain_of_mem_utf8EncodeChar {c : Char} (visible : 32 ≤ c.toNat) (quote : c ≠ '"')
    (backslash : c ≠ '\\') {b : UInt8} (mem : b ∈ String.utf8EncodeChar c) : Plain b := by
  simp only [String.utf8EncodeChar] at mem
  split at mem
  · rename_i ascii
    rw [List.mem_singleton.1 mem]
    exact plain_of_ascii visible ascii quote backslash
  · -- every byte of a longer code has its highest bit set
    have high : ∃ n, 128 ≤ n ∧ n < 256 ∧ b = UInt8.ofNat n := by
      split at mem
      · simp only [List.mem_cons, List.not_mem_nil, or_false] at mem
        rcases mem with rfl | rfl <;> exact ⟨_, by omega, by omega, rfl⟩
      · split at mem
        · simp only [List.mem_cons, List.not_mem_nil, or_false] at mem
          rcases mem with rfl | rfl | rfl <;> exact ⟨_, by omega, by omega, rfl⟩
        · simp only [List.mem_cons, List.not_mem_nil, or_false] at mem
          rcases mem with rfl | rfl | rfl | rfl <;> exact ⟨_, by omega, by omega, rfl⟩
    obtain ⟨n, low, byte, rfl⟩ := high
    exact plain_of_high (high_ofNat low byte)

/-! ## Characters -/

/-- The characters that have a short escape. -/
def shorts : List Char :=
  ['"', '\\', '\x08', '\x0c', '\n', '\x0d', '\t']

/-- What is read of a character that was written: its bytes, or its number where it is a control
character without a short escape. -/
def pieces (c : Char) : List Piece :=
  if c.toNat < 32 ∧ c ∉ shorts then [.unit c.toNat] else (String.utf8EncodeChar c).map .byte

theorem escape_of_not_mem_shorts {c : Char} (long : c ∉ shorts) :
    escape c = if c.toNat < 32 then
      ['\\', 'u', '0', '0', hexDigit (c.toNat / 16), hexDigit (c.toNat % 16)] else [c] := by
  simp only [shorts, List.mem_cons, List.not_mem_nil, or_false, not_or] at long
  simp [escape, long]

/-- The six bytes of a control character without a short escape. -/
theorem bytes_unit {n : Nat} (control : n < 32) :
    bytes ['\\', 'u', '0', '0', hexDigit (n / 16), hexDigit (n % 16)] =
        [0x5C, 0x75, 0x30, 0x30, byte (hexDigit (n / 16)), byte (hexDigit (n % 16))] ∧
      hexQuad? 0x30 0x30 (byte (hexDigit (n / 16))) (byte (hexDigit (n % 16))) = some n := by
  have all : ∀ n < 32, bytes ['\\', 'u', '0', '0', hexDigit (n / 16), hexDigit (n % 16)] =
        [0x5C, 0x75, 0x30, 0x30, byte (hexDigit (n / 16)), byte (hexDigit (n % 16))] ∧
      hexQuad? 0x30 0x30 (byte (hexDigit (n / 16))) (byte (hexDigit (n % 16))) = some n := by
    decide
  exact all n control

theorem string?_unit {n : Nat} (control : n < 32) (rest : List UInt8) :
    string? (bytes ['\\', 'u', '0', '0', hexDigit (n / 16), hexDigit (n % 16)] ++ rest) =
      (string? rest).map fun (ps, after) => (.unit n :: ps, after) := by
  obtain ⟨eq, value⟩ := bytes_unit control
  rw [eq]
  simp only [List.cons_append, List.nil_append]
  rw [string?, value]
  cases string? rest <;> rfl

theorem string?_short {e b : UInt8} (short : shortEscape? e = some b) (rest : List UInt8) :
    string? (0x5C :: e :: rest) = (string? rest).map fun (ps, after) => (.byte b :: ps, after) := by
  have other : e ≠ 0x75 := by
    rintro rfl
    cases short
  rw [string?]
  · rw [short]
    cases string? rest <;> rfl
  · intro a b c d after eq
    exact absurd eq other

/-- A character that was written is read as its pieces. -/
theorem string?_escape (c : Char) (rest : List UInt8) :
    string? (bytes (escape c) ++ rest) =
      (string? rest).map fun (ps, after) => (pieces c ++ ps, after) := by
  by_cases short : c ∈ shorts
  · simp only [shorts, List.mem_cons, List.not_mem_nil, or_false] at short
    rcases short with rfl | rfl | rfl | rfl | rfl | rfl | rfl <;> exact string?_short rfl rest
  · rw [escape_of_not_mem_shorts short]
    by_cases control : c.toNat < 32
    · rw [if_pos control, pieces, if_pos ⟨control, short⟩]
      exact string?_unit control rest
    · have quote : c ≠ '"' := fun eq => short (eq ▸ by decide)
      have backslash : c ≠ '\\' := fun eq => short (eq ▸ by decide)
      rw [if_neg control, pieces, if_neg fun both => control both.1, Text.bytes_cons,
        Text.bytes_nil, List.append_nil]
      have plain : ∀ b ∈ String.utf8EncodeChar c, Plain b := fun b mem =>
        plain_of_mem_utf8EncodeChar (Nat.le_of_not_lt control) quote backslash mem
      exact string?_of_all_plain plain rest

theorem string?_quoted (cs : List Char) (rest : List UInt8) :
    string? (bytes (cs.flatMap escape ++ ['"']) ++ rest) = some (cs.flatMap pieces, rest) := by
  induction cs with
  | nil => rfl
  | cons c cs ih =>
      rw [List.flatMap_cons, List.append_assoc, Text.bytes_append, List.append_assoc,
        string?_escape, ih]
      rfl

/-! ## The text of the pieces -/

theorem bytes?_map_byte (bs : List UInt8) (ps : List Piece) :
    bytes? (bs.map .byte ++ ps) = (bytes? ps).map (bs ++ ·) := by
  induction bs with
  | nil => simp
  | cons b bs ih =>
      rw [List.map_cons, List.cons_append, bytes?, ih, Option.map_map]
      rfl

/-- A number below the surrogates stands for its character, whatever follows. -/
theorem bytes?_unit {n : Nat} (low : n < 0xD800) (ps : List Piece) :
    bytes? (.unit n :: ps) = (bytes? ps).map (utf8 n ++ ·) := by
  have high : isHigh n = false := by simp [isHigh]; omega
  have low : isLow n = false := by simp [isLow]; omega
  match ps with
  | [] => simp [bytes?, high, low]
  | .byte b :: ps => simp [bytes?, high, low]
  | .unit u :: ps => simp [bytes?, high, low]

theorem bytes?_pieces (c : Char) (ps : List Piece) :
    bytes? (pieces c ++ ps) = (bytes? ps).map (String.utf8EncodeChar c ++ ·) := by
  unfold pieces
  split
  · rename_i control
    rw [List.singleton_append, bytes?_unit (by omega), utf8, Char.ofNat_toNat]
  · exact bytes?_map_byte _ ps

theorem bytes?_flatMap_pieces (cs : List Char) : bytes? (cs.flatMap pieces) = some (bytes cs) := by
  induction cs with
  | nil => rfl
  | cons c cs ih => rw [List.flatMap_cons, bytes?_pieces, ih, Option.map_some, Text.bytes_cons]

theorem text?_pieces (s : String) : text? (s.toList.flatMap pieces) = some s := by
  rw [text?, bytes?_flatMap_pieces]
  exact Text.fromUTF8?_bytes s

/-- A string that was written is read as the one lexeme of its text, whatever follows it. -/
theorem one?_quoted (s : String) (rest : List UInt8) :
    one? (bytes (quoted s) ++ rest) = some (.text (some s), rest) := by
  have opening : bytes (quoted s) ++ rest =
      0x22 :: (bytes (s.toList.flatMap escape ++ ['"']) ++ rest) := rfl
  rw [opening, one?, string?_quoted, Option.map_some]
  simp only [text?_pieces]

end Json.Lexeme
end BuildPipeline
