/-
  SchemaGuard — quoted texts.

  A text is quoted with single quotes, or with double quotes if it holds a
  single quote and no double one. The quote in use and the backslash are escaped
  by a backslash, line breaks and tabs have short escapes, and every other
  character that is not printable is written by its code in lower-case hex.
-/
import SchemaGuard.Text.Printable

namespace SchemaGuard.Text

/-- A code in at least `width` lower-case hexadecimal digits. -/
def hex (width code : Nat) : List Char :=
  let digits := Nat.toDigits 16 code
  List.replicate (width - digits.length) '0' ++ digits

/-- The shortest numeric escape of a code point. -/
def numericEscape (code : Nat) : List Char :=
  if code < 256 then '\\' :: 'x' :: hex 2 code
  else if code < 65536 then '\\' :: 'u' :: hex 4 code
  else '\\' :: 'U' :: hex 8 code

/-- A character inside quotes. -/
def quotedChar (quote c : Char) : List Char :=
  if c = quote ∨ c = '\\' then ['\\', c]
  else if c = '\n' then ['\\', 'n']
  else if c = '\r' then ['\\', 'r']
  else if c = '\t' then ['\\', 't']
  else if isPrintable c.toNat then [c]
  else numericEscape c.toNat

/-- The quote that needs fewer escapes: double only where that avoids escaping
    a single quote and costs nothing. -/
def quoteFor (cs : List Char) : Char :=
  if cs.contains '\'' && !cs.contains '"' then '"' else '\''

/-- A text in quotes. -/
def quoted (s : String) : String :=
  let cs := s.toList
  let q := quoteFor cs
  String.ofList (q :: cs.flatMap (quotedChar q) ++ [q])

/-- A byte inside quotes: ASCII where it is printable, else by its code. -/
def quotedByte (quote : Char) (b : UInt8) : List Char :=
  if b < 128 then quotedChar quote (Char.ofNat b.toNat) else numericEscape b.toNat

/-- Bytes in quotes, marked by a leading `b`. -/
def quotedBytes (data : List UInt8) : String :=
  let q := quoteFor (data.map fun b => Char.ofNat b.toNat)
  String.ofList ('b' :: q :: data.flatMap (quotedByte q) ++ [q])

end SchemaGuard.Text
