/-!
White space in names and identifiers, as the Unicode property `White_Space` lists it. A text is
blank when it holds nothing else; such a text names nothing and is refused as an identifier.
-/

namespace BuildPipeline.Text

/-- The ranges of code points that have the property, both ends included. -/
def blankRanges : List (Nat × Nat) :=
  [(0x9, 0xD), (0x20, 0x20), (0x85, 0x85), (0xA0, 0xA0), (0x1680, 0x1680), (0x2000, 0x200A),
   (0x2028, 0x2029), (0x202F, 0x202F), (0x205F, 0x205F), (0x3000, 0x3000)]

/-- A character is white space when its code point lies in one of the ranges. -/
def isSpace (c : Char) : Bool :=
  blankRanges.any fun (low, high) => low ≤ c.toNat && c.toNat ≤ high

/-- A text is blank when every character of it is white space; the empty text is blank. -/
def isBlank (s : String) : Bool :=
  s.toList.all isSpace

/-- The text without the white space at its two ends. -/
def trim (s : String) : String :=
  String.ofList (((s.toList.dropWhile isSpace).reverse.dropWhile isSpace).reverse)

/-- The text with every hyphen written as an underscore. -/
def underscored (s : String) : String :=
  s.map fun c => if c = '-' then '_' else c

end BuildPipeline.Text
