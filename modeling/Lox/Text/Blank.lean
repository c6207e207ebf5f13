import Lox.Text.Ranges
import Lox.Text.Scalar

/-!
# White space

The characters with the Unicode property `White_Space`: they stand between tokens, and trimming
removes them from both ends of a text.
-/

namespace Lox

/-- The ranges of white space. -/
def blankRanges : List (Nat × Nat) :=
  [(0x9, 0xD), (0x20, 0x20), (0x85, 0x85), (0xA0, 0xA0), (0x1680, 0x1680), (0x2000, 0x200A),
    (0x2028, 0x2029), (0x202F, 0x202F), (0x205F, 0x205F), (0x3000, 0x3000)]

/-- Whether a character is white space. -/
def isBlank (c : Char) : Bool := Ranges.has blankRanges c.toNat

namespace Text

/-- A list without the members at its end that satisfy a test. -/
def dropEndWhile {α : Type} (p : α → Bool) (xs : List α) : List α :=
  (xs.reverse.dropWhile p).reverse

/-- A text without the white space at both ends. -/
def trim (t : Text) : Text :=
  Scalar.text (dropEndWhile (fun s => isBlank s.char) (t.decode.dropWhile fun s => isBlank s.char))

end Text

end Lox
