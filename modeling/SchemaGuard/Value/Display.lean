/-
  SchemaGuard — values in messages.

  * `quoted` shows a value so that its type can be told: texts in quotes, parts
    of containers quoted in turn;
  * `shown` is the same except that a text or a date is shown bare;
  * `render` is for expected values: quoted texts, and null and the truth values
    under their JSON names.

  Inside containers null and the truth values are `None`, `True` and `False`.
-/
import SchemaGuard.Number.Decimal
import SchemaGuard.Text.Quoted
import SchemaGuard.Value.Basic

namespace SchemaGuard

/-- The text of a number: all digits of an integer, the shortest of a double. An integer with more
    digits than `digitLimit` has a text here too, though no message could show it. -/
def Number.text : Number → String
  | .int n => toString n
  | .double d => d.text

namespace Scalar

/-- A scalar shown with its type. -/
def quoted : Scalar → String
  | .null => "None"
  | .bool true => "True"
  | .bool false => "False"
  | .number n => n.text
  | .text s => Text.quoted s
  | .bytes data => Text.quotedBytes data
  | .date d => d.quoted
  | .moment m => m.quoted

/-- A scalar shown bare. -/
def shown : Scalar → String
  | .text s => s
  | .date d => d.text
  | .moment m => m.text
  | s => s.quoted

end Scalar

namespace Value

mutual
/-- A value shown with its type and that of its parts. -/
def quoted : Value → String
  | .scalar s => s.quoted
  | .list items => "[" ++ quotedItems items ++ "]"
  | .tuple [item] => "(" ++ item.quoted ++ ",)"
  | .tuple items => "(" ++ quotedItems items ++ ")"
  | .object fields => "\x7b" ++ quotedFields fields ++ "\x7d"
/-- Quoted values separated by commas. -/
def quotedItems : List Value → String
  | [] => ""
  | [item] => item.quoted
  | item :: items => item.quoted ++ ", " ++ quotedItems items
/-- Quoted fields separated by commas. -/
def quotedFields : List (Scalar × Value) → String
  | [] => ""
  | [(key, v)] => key.quoted ++ ": " ++ v.quoted
  | (key, v) :: fields => key.quoted ++ ": " ++ v.quoted ++ ", " ++ quotedFields fields
end

/-- A value shown bare. -/
def shown : Value → String
  | .scalar s => s.shown
  | v => v.quoted

/-- An expected value as messages name it. -/
def render : Value → String
  | .text s => Text.quoted s
  | .bool true => "true"
  | .bool false => "false"
  | .null => "null"
  | v => v.shown

end Value

end SchemaGuard
