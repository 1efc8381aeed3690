/-
  SchemaGuard — writing JSON texts.

  Texts are written in ASCII: other characters by their UTF-16 codes. Doubles
  have their shortest text, the special ones the names that reading takes. Keys
  that are numbers, truth values or null are written as texts; other scalars
  have no JSON text.
-/
import SchemaGuard.Fault
import SchemaGuard.Number.Decimal
import SchemaGuard.Text.Quoted

namespace SchemaGuard.Json

/-- A UTF-16 code as an escape. -/
def unitEscape (code : Nat) : List Char := '\\' :: 'u' :: Text.hex 4 code

/-- A character inside a JSON text. -/
def writtenChar (c : Char) : List Char :=
  match c with
  | '"' => ['\\', '"']
  | '\\' => ['\\', '\\']
  | '\n' => ['\\', 'n']
  | '\r' => ['\\', 'r']
  | '\t' => ['\\', 't']
  | '\x08' => ['\\', 'b']
  | '\x0c' => ['\\', 'f']
  | c =>
    let code := c.toNat
    if 32 ≤ code ∧ code < 127 then [c]
    else if code < 0x10000 then unitEscape code
    else
      unitEscape (0xD800 + (code - 0x10000) / 0x400) ++ unitEscape (0xDC00 + (code - 0x10000) % 0x400)

/-- A text in quotes. -/
def writtenText (s : String) : String :=
  String.ofList ('"' :: s.toList.flatMap writtenChar ++ ['"'])

/-- The JSON text of a number. -/
def writtenNumber : Number → String
  | .int n => toString n
  | .double (.nan _) => "NaN"
  | .double (.infinite false) => "Infinity"
  | .double (.infinite true) => "-Infinity"
  | .double d => d.text

/-- The JSON text of a scalar. -/
def writtenScalar : Scalar → Except Fault String
  | .null => .ok "null"
  | .bool true => .ok "true"
  | .bool false => .ok "false"
  | .number n => .ok (writtenNumber n)
  | .text s => .ok (writtenText s)
  | _ => .error .notWritable

/-- The name that a key has in a JSON text, whatever scalar it is. -/
def keyName : Scalar → Except Fault String
  | .text s => .ok s
  | s => writtenScalar s

/-- The JSON text of a key. -/
def writtenKey (key : Scalar) : Except Fault String := do
  return writtenText (← keyName key)

/-- How the parts of a container are set apart: on one line, or each on a line of
    its own with two more spaces than the container. -/
inductive Layout where
  | inline
  | lines (indent : Nat)

namespace Layout

/-- What stands in front of a part. -/
def before : Layout → String
  | .inline => ""
  | .lines indent => "\n" ++ String.ofList (List.replicate (indent + 2) ' ')

/-- What stands in front of the closing bracket. -/
def closing : Layout → String
  | .inline => ""
  | .lines indent => "\n" ++ String.ofList (List.replicate indent ' ')

/-- What separates two parts. -/
def comma : Layout → String
  | .inline => ", "
  | .lines _ => ","

/-- The layout of a part. -/
def inner : Layout → Layout
  | .inline => .inline
  | .lines indent => .lines (indent + 2)

end Layout

mutual
/-- The JSON text of a value. -/
def written (layout : Layout) : Value → Except Fault String
  | .scalar s => writtenScalar s
  | .list [] | .tuple [] => .ok "[]"
  | .list items | .tuple items => do
    return "[" ++ layout.comma.intercalate (← writtenItems layout items) ++ layout.closing ++ "]"
  | .object [] => .ok "\x7b\x7d"
  | .object fields => do
    return "\x7b" ++ layout.comma.intercalate (← writtenFields layout fields) ++
      layout.closing ++ "\x7d"
/-- The JSON texts of list items. -/
def writtenItems (layout : Layout) : List Value → Except Fault (List String)
  | [] => .ok []
  | item :: items => do
    let first ← written layout.inner item
    return (layout.before ++ first) :: (← writtenItems layout items)
/-- The JSON texts of fields. -/
def writtenFields (layout : Layout) : List (Scalar × Value) → Except Fault (List String)
  | [] => .ok []
  | (key, v) :: fields => do
    let name ← writtenKey key
    let value ← written layout.inner v
    return (layout.before ++ name ++ ": " ++ value) :: (← writtenFields layout fields)
end

end SchemaGuard.Json
