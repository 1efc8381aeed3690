/-
  SchemaGuard — sets of characters given by ranges of code points.
-/

namespace SchemaGuard.Text

/-- Whether a code point lies in one of the ranges, both ends included. -/
def inRanges (ranges : List (Nat × Nat)) (code : Nat) : Bool :=
  ranges.any fun (first, last) => first ≤ code && code ≤ last

end SchemaGuard.Text
