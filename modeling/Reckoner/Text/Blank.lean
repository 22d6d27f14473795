/-!
# Blank characters

The characters that separate lexemes, that are trimmed from configuration lines and that make a
line of a session empty: the Unicode property `White_Space` together with the four information
separators U+001C to U+001F. One definition serves all three uses, so a line is blank exactly when
every character of it separates lexemes.
-/

namespace Reckoner.Text

/-- Code points of the blank characters outside the ranges of `isBlank`. -/
def scatteredBlanks : List Nat :=
  [0x20, 0x85, 0xA0, 0x1680, 0x2028, 0x2029, 0x202F, 0x205F, 0x3000]

/-- `White_Space`, or one of the information separators U+001C to U+001F. -/
def isBlank (c : Char) : Bool :=
  let n := c.toNat
  (0x09 ≤ n && n ≤ 0x0D) || (0x1C ≤ n && n ≤ 0x1F) || (0x2000 ≤ n && n ≤ 0x200A) ||
    scatteredBlanks.contains n

/-- The characters of the library's own class of spaces are blank. -/
theorem isBlank_of_isWhitespace {c : Char} (h : c.isWhitespace = true) : isBlank c = true := by
  simp only [Char.isWhitespace, Bool.or_eq_true, decide_eq_true_eq] at h
  rcases h with ((h | h) | h) | h <;> subst h <;> decide

/-- Drops blank characters at the front. -/
def trimLeft (cs : List Char) : List Char := cs.dropWhile isBlank

/-- Drops blank characters at the end. -/
def trimRight (cs : List Char) : List Char := (cs.reverse.dropWhile isBlank).reverse

/-- Drops blank characters at both ends. -/
def trim (cs : List Char) : List Char := trimRight (trimLeft cs)

end Reckoner.Text
