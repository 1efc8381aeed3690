/-
  SchemaGuard — white space, and texts without it at their ends.

  Blank characters are those with the bidirectional class of a space or
  separator, or in category Zs (Unicode 14): besides the usual ones the four
  information separators U+001C to U+001F and U+0085.
-/
import SchemaGuard.Text.Ranges

namespace SchemaGuard.Text

/-- The blank code points, in increasing order. -/
def blankRanges : List (Nat × Nat) :=
  [(9, 13), (28, 32), (133, 133), (160, 160), (5760, 5760),
   (8192, 8202), (8232, 8233), (8239, 8239), (8287, 8287), (12288, 12288)]

/-- Whether a code point is white space. -/
def isBlank (code : Nat) : Bool := inRanges blankRanges code

/-- Removes the blanks at both ends. -/
def trim (cs : List Char) : List Char :=
  let blank (c : Char) := isBlank c.toNat
  ((cs.dropWhile blank).reverse.dropWhile blank).reverse

end SchemaGuard.Text
