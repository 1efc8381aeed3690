/-
  SchemaGuard — places in YAML texts.

  A `Cursor` is the part of a text that is still to be read, with its `Place`.
  Lines end at line feeds, carriage returns and the breaks of Unicode; a carriage
  return with a line feed behind it is one break. `Place.text` shows a place with
  the piece of the line around it.
-/
namespace SchemaGuard.Yaml

/-! ## Characters -/

/-- What a cursor shows behind the last character; no text contains it. -/
def endChar : Char := '\x00'

/-- Whether a character breaks a line. -/
def isBreak (c : Char) : Bool :=
  c == '\n' || c == '\r' || c == '\x85' || c == '\u2028' || c == '\u2029'

/-- Whether a character is a space or a tab. -/
def isSpace (c : Char) : Bool := c == ' ' || c == '\t'

/-- Whether a line, and with it a word, ends at a character. -/
def endsLine (c : Char) : Bool := isBreak c || c == endChar

/-- Whether a word ends at a character. -/
def endsWord (c : Char) : Bool := isSpace c || endsLine c

/-- Whether a character may stand in a text at all. -/
def isReadable (c : Char) : Bool :=
  let code := c.toNat
  c == '\t' || c == '\n' || c == '\r' || (32 ≤ code && code ≤ 126) || code == 0x85 ||
    (0xA0 ≤ code && code ≤ 0xFFFD) || 0x10000 ≤ code

/-! ## Places and cursors -/

/-- A position in a text, counted from zero. -/
structure Place where
  offset : Nat
  line : Nat
  column : Nat
deriving DecidableEq, Repr, Inhabited

/-- The characters that are left and the place of the first of them. -/
structure Cursor where
  rest : List Char
  place : Place
deriving Repr

namespace Cursor

/-- The cursor in front of a text. -/
def ofText (text : List Char) : Cursor := ⟨text, ⟨0, 0, 0⟩⟩

/-- The character some steps ahead. -/
def peekAt (c : Cursor) (steps : Nat) : Char := c.rest.getD steps endChar

/-- The next character. -/
def peek (c : Cursor) : Char := c.rest.headD endChar

/-- Steps over a character. A byte order mark takes no column. -/
def next (c : Cursor) : Cursor :=
  match c.rest with
  | [] => c
  | ch :: rest =>
    let p := c.place
    if isBreak ch && !(ch == '\r' && rest.head? == some '\n') then ⟨rest, ⟨p.offset + 1, p.line + 1, 0⟩⟩
    else if ch == '\uFEFF' then ⟨rest, ⟨p.offset + 1, p.line, p.column⟩⟩
    else ⟨rest, ⟨p.offset + 1, p.line, p.column + 1⟩⟩

/-- Steps over some characters. -/
def skip (c : Cursor) : Nat → Cursor
  | 0 => c
  | n + 1 => c.next.skip n

/-- The characters in front that satisfy a test. -/
def takeWhile (c : Cursor) (p : Char → Bool) : List Char := c.rest.takeWhile p

/-- Steps over the characters in front that satisfy a test. -/
def skipWhile (c : Cursor) (p : Char → Bool) : Cursor := c.skip (c.takeWhile p).length

/-- Steps over a line break, if there is one; it counts as a line feed unless it is
    one of the separators of Unicode. -/
def lineBreak? (c : Cursor) : Option (Char × Cursor) :=
  if !isBreak c.peek then none
  else if c.peek == '\u2028' || c.peek == '\u2029' then some (c.peek, c.next)
  else if c.peek == '\r' && c.peekAt 1 == '\n' then some ('\n', c.skip 2)
  else some ('\n', c.next)

/-- Whether a line with only a document mark begins here. -/
def atDocumentMark (c : Cursor) : Bool :=
  (c.rest.take 3 == ['-', '-', '-'] || c.rest.take 3 == ['.', '.', '.']) && endsWord (c.peekAt 3)

end Cursor

/-! ## Texts of places -/

/-- The most characters that are shown on one side of a place. -/
def snippetReach : Nat := 36

/-- The characters that are shown on one side of a place where there are more. -/
def snippetCut : Nat := 32

/-- The line around a place with a caret under it, both indented by four spaces. -/
def Place.snippet (text : List Char) (p : Place) : String :=
  let before := ((text.take p.offset).reverse.takeWhile (!endsLine ·)).reverse
  let after := (text.drop p.offset).takeWhile (!endsLine ·)
  let shownBefore :=
    if snippetReach < before.length then " ... ".toList ++ before.drop (before.length - snippetCut)
    else before
  let shownAfter :=
    if snippetReach < after.length then after.take snippetCut ++ " ... ".toList else after
  "    " ++ String.ofList (shownBefore ++ shownAfter) ++ "\n    " ++
    String.ofList (List.replicate shownBefore.length ' ') ++ "^"

/-- A place with the text around it. -/
def Place.text (text : List Char) (p : Place) : String :=
  "  in \"<unicode string>\", line " ++ toString (p.line + 1) ++ ", column " ++
    toString (p.column + 1) ++ ":\n" ++ p.snippet text

end SchemaGuard.Yaml
