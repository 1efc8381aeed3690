/-
  SchemaGuard — places in a text, as lines and columns.
-/

namespace SchemaGuard.Text

/-- The line and column, both counted from one, of an offset in a text. -/
def lineColumn (text : List Char) (offset : Nat) : Nat × Nat :=
  let before := text.take offset
  (before.count '\n' + 1, (before.reverse.takeWhile (· != '\n')).length + 1)

end SchemaGuard.Text
