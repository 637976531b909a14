/-!
# Blank characters

Identifiers and symbols may be typed with blanks around them. **Blank** means
the White_Space property of the character standard: 25 code points, of which
`Char.isWhitespace` knows four (`isBlank_of_isWhitespace`). Letters are folded
to lower case in the ASCII range only.

`String.trimBlank` takes blanks off both ends, `foldCase` lower-cases.
-/

namespace StakeAccounting

/-- **The White_Space property**, as ranges of code points. -/
def blankRanges : List (Nat × Nat) :=
  [(0x0009, 0x000D), (0x0020, 0x0020), (0x0085, 0x0085), (0x00A0, 0x00A0), (0x1680, 0x1680),
   (0x2000, 0x200A), (0x2028, 0x2029), (0x202F, 0x202F), (0x205F, 0x205F), (0x3000, 0x3000)]

/-- Whether a character is blank. -/
def isBlank (c : Char) : Bool := blankRanges.any fun (low, high) => low ≤ c.toNat && c.toNat ≤ high

/-- Every character of the narrower class is blank. -/
theorem isBlank_of_isWhitespace {c : Char} (h : c.isWhitespace = true) : isBlank c = true := by
  simp only [Char.isWhitespace, Bool.or_eq_true, decide_eq_true_eq] at h
  rcases h with ((h | h) | h) | h <;> subst h <;> decide

/-- The characters without the blanks at both ends. -/
def trimBlankChars (cs : List Char) : List Char :=
  ((cs.dropWhile isBlank).reverse.dropWhile isBlank).reverse

/-- The text without the blanks at both ends. -/
def trimBlank (s : String) : String := String.ofList (trimBlankChars s.toList)

/-- The text in lower case, as far as its letters are ASCII letters. -/
def foldCase (s : String) : String := String.ofList (s.toList.map Char.toLower)

/-- Whether two texts differ in the case of ASCII letters at most. -/
def sameFolded (s t : String) : Bool := foldCase s == foldCase t

/-- The bytes a text is stored in, in UTF-8. -/
def utf8Bytes (s : String) : List UInt8 := s.toList.flatMap String.utf8EncodeChar

end StakeAccounting
