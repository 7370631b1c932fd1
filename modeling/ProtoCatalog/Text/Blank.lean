/-!
# Blank characters and trimming

Comments arrive with the blanks that surrounded them in the file.  A blank is any character
that separates words: ASCII white space, the four information separators, and the Unicode
space, line and paragraph separators.
-/

namespace ProtoCatalog.Text

/-- The characters trimmed from both ends of a comment. -/
def isBlank (c : Char) : Bool :=
  let n := c.toNat
  (0x9 ≤ n && n ≤ 0xD) || (0x1C ≤ n && n ≤ 0x20) || n == 0x85 || n == 0xA0 || n == 0x1680 ||
    (0x2000 ≤ n && n ≤ 0x200A) || n == 0x2028 || n == 0x2029 || n == 0x202F || n == 0x205F ||
    n == 0x3000

/-- Every character that ASCII calls white space is blank. -/
theorem isBlank_of_isWhitespace {c : Char} (h : c.isWhitespace = true) : isBlank c = true := by
  simp only [Char.isWhitespace, Bool.or_eq_true, decide_eq_true_eq] at h
  rcases h with ((rfl | rfl) | rfl) | rfl <;> decide

/-- A text without its leading characters of a class. -/
def dropLeading (p : Char → Bool) (s : List Char) : List Char := s.dropWhile p

def dropTrailing (p : Char → Bool) (s : List Char) : List Char := (s.reverse.dropWhile p).reverse

/-- A text without the characters of a class at either end. -/
def stripBoth (p : Char → Bool) (s : List Char) : List Char := dropTrailing p (dropLeading p s)

def trim (s : String) : String := String.ofList (stripBoth isBlank s.toList)

end ProtoCatalog.Text
