/-
  SchemaGuard — scalars of YAML texts.

  A scalar is plain, in single or double quotes, or a block: lines of their own
  under an indentation. The readers of this module begin at the first character
  of a scalar and return its text with the cursor behind it. In plain and quoted
  scalars and in folded blocks a single line break becomes a space.
-/
import SchemaGuard.Document.Yaml.Problem

namespace SchemaGuard.Yaml

/-- What a line break and the empty lines behind it become in a folded text. -/
def foldBreaks (first : Char) (others : List Char) : List Char :=
  if first != '\n' then first :: others else if others.isEmpty then [' '] else others

/-! ## Plain scalars -/

/-- The brackets and commas of flow collections. -/
def isFlowMark (c : Char) : Bool := c == ',' || c == '[' || c == ']' || c == '{' || c == '}'

/-- The length of the plain word in front. In flow collections it ends at their
    marks; a colon ends it if the next word begins behind it. -/
def plainLength (inFlow : Bool) : List Char → Nat
  | [] => 0
  | c :: rest =>
    let following := rest.headD endChar
    if endsWord c || (c == ':' && (endsWord following || (inFlow && isFlowMark following))) ||
        (inFlow && (isFlowMark c || c == '?')) then 0
    else 1 + plainLength inFlow rest

/-- Steps over spaces and line breaks and collects the breaks; none at a document
    mark. -/
def plainBreaks : (rounds : Nat) → (read : List Char) → Cursor → Option (List Char) × Cursor
  | 0, read, c => (some read, c)
  | rounds + 1, read, c =>
    if c.peek == ' ' then plainBreaks rounds read c.next
    else
      match c.lineBreak? with
      | none => (some read, c)
      | some (b, c) => if c.atDocumentMark then (none, c) else plainBreaks rounds (read ++ [b]) c

/-- What stands between two words of a plain scalar, as it counts in its text, and
    whether a line ended there. -/
def plainGap (c : Cursor) : List Char × Bool × Cursor :=
  let spaces := c.takeWhile (· == ' ')
  let c := c.skip spaces.length
  match c.lineBreak? with
  | none => (spaces, false, c)
  | some (first, c) =>
    if c.atDocumentMark then ([], true, c)
    else
      match plainBreaks c.rest.length [] c with
      | (none, c) => ([], true, c)
      | (some others, c) => (foldBreaks first others, true, c)

/-- Reads the words of a plain scalar; `gap` is what stands in front of the next
    one. The scalar ends at a comment and, outside flow collections, at a line that
    is indented less than `indent`. Also tells whether a line ended behind it. -/
def plainWords (inFlow : Bool) (indent : Nat) : (rounds : Nat) → (read gap : List Char) →
    (lineEnded : Bool) → Cursor → List Char × Bool × Cursor
  | 0, read, _, lineEnded, c => (read, lineEnded, c)
  | rounds + 1, read, gap, lineEnded, c =>
    let length := plainLength inFlow c.rest
    if c.peek == '#' || length == 0 then (read, lineEnded, c)
    else
      let read := read ++ gap ++ c.rest.take length
      let (gap, lineEnded, c) := plainGap (c.skip length)
      if gap.isEmpty || (!inFlow && c.place.column < indent) then (read, lineEnded, c)
      else plainWords inFlow indent rounds read gap lineEnded c

/-- Reads a plain scalar. -/
def readPlain (inFlow : Bool) (indent : Nat) (c : Cursor) : List Char × Bool × Cursor :=
  plainWords inFlow indent (c.rest.length + 1) [] [] false c

/-! ## Quoted scalars -/

/-- The character that an escape letter stands for. -/
def escapeLetter? : Char → Option Char
  | '0' => some '\x00'
  | 'a' => some '\x07'
  | 'b' => some '\x08'
  | 't' | '\t' => some '\t'
  | 'n' => some '\n'
  | 'v' => some '\x0b'
  | 'f' => some '\x0c'
  | 'r' => some '\r'
  | 'e' => some '\x1b'
  | ' ' => some ' '
  | '"' => some '"'
  | '\\' => some '\\'
  | '/' => some '/'
  | 'N' => some '\x85'
  | '_' => some '\xa0'
  | 'L' => some '\u2028'
  | 'P' => some '\u2029'
  | _ => none

/-- The number of hexadecimal digits behind an escape letter. -/
def escapeDigits? : Char → Option Nat
  | 'x' => some 2
  | 'u' => some 4
  | 'U' => some 8
  | _ => none

/-- The value of a hexadecimal digit. -/
def hexDigit? (c : Char) : Option Nat :=
  if '0' ≤ c ∧ c ≤ '9' then some (c.toNat - 48)
  else if 'a' ≤ c ∧ c ≤ 'f' then some (c.toNat - 87)
  else if 'A' ≤ c ∧ c ≤ 'F' then some (c.toNat - 55)
  else none

/-- Reads the code of an escape, the cursor being behind its letter. -/
def readEscapeCode (start : Place) (count : Nat) (c : Cursor) : Except ReadError (Char × Cursor) :=
  let digits := (List.range count).map c.peekAt
  match digits.mapM hexDigit? with
  | some values =>
    let code := values.foldl (fun n d => 16 * n + d) 0
    if h : code.isValidChar then .ok (Char.ofNatAux code h, c.skip count)
    else stopSince .doubleQuoted start .noCharacter c.place
  | none =>
    let wrong := (digits.find? fun d => (hexDigit? d).isNone).getD endChar
    stopSince .doubleQuoted start (.hexExpected count wrong) c.place

/-- Steps over empty lines inside quotes and the indentation behind them, and
    collects the breaks. -/
def quotedBreaks (start : Place) : (rounds : Nat) → (read : List Char) → Cursor →
    Except ReadError (List Char × Cursor)
  | 0, read, c => .ok (read, c)
  | rounds + 1, read, c =>
    if c.atDocumentMark then stopSince .quoted start .documentMarkInsideQuotes c.place
    else
      let c := c.skipWhile isSpace
      match c.lineBreak? with
      | none => .ok (read, c)
      | some (b, c) => quotedBreaks start rounds (read ++ [b]) c

/-- Reads what begins with a space or a line break inside quotes. -/
def quotedGap (start : Place) (c : Cursor) : Except ReadError (List Char × Cursor) :=
  let spaces := c.takeWhile isSpace
  let c := c.skip spaces.length
  if c.peek == endChar then stopSince .quoted start .endInsideQuotes c.place
  else
    match c.lineBreak? with
    | none => .ok (spaces, c)
    | some (first, c) => do
      let (others, c) ← quotedBreaks start c.rest.length.succ [] c
      return (foldBreaks first others, c)

/-- Reads an escape in double quotes, the cursor being behind the backslash. -/
def readEscape (start : Place) (c : Cursor) : Except ReadError (List Char × Cursor) :=
  match escapeLetter? c.peek with
  | some ch => .ok ([ch], c.next)
  | none =>
    match escapeDigits? c.peek with
    | some count => do
      let (ch, c) ← readEscapeCode start count c.next
      return ([ch], c)
    | none =>
      match c.lineBreak? with
      | some (_, c) => quotedBreaks start c.rest.length.succ [] c
      | none => stopSince .doubleQuoted start (.unknownEscape c.peek) c.place

/-- Reads the rest of a quoted scalar, after the part already read. -/
def quotedRest (quote : Char) (start : Place) : (rounds : Nat) → (read : List Char) → Cursor →
    Except ReadError (List Char × Cursor)
  | 0, _, c => stopSince .quoted start .endInsideQuotes c.place
  | rounds + 1, read, c =>
    if c.peek == quote then
      if quote == '\'' && c.peekAt 1 == quote then
        quotedRest quote start rounds (read ++ [quote]) (c.skip 2)
      else .ok (read, c.next)
    else if quote == '"' && c.peek == '\\' then do
      let (piece, c) ← readEscape start c.next
      quotedRest quote start rounds (read ++ piece) c
    else if endsWord c.peek then do
      let (piece, c) ← quotedGap start c
      quotedRest quote start rounds (read ++ piece) c
    else quotedRest quote start rounds (read ++ [c.peek]) c.next

/-- Reads a quoted scalar, from its opening quote on. -/
def readQuoted (c : Cursor) : Except ReadError (List Char × Cursor) :=
  quotedRest c.peek c.place (c.rest.length + 1) [] c.next

/-! ## Block scalars -/

/-- What becomes of the line breaks at the end of a block. -/
inductive Chomping where
  | strip
  | clip
  | keep
deriving DecidableEq, Repr

/-- The chomping that an indicator stands for. -/
def Chomping.ofIndicator? : Char → Option Chomping
  | '+' => some keep
  | '-' => some strip
  | _ => none

/-- The indentation that a digit stands for; zero is refused. -/
def readIndentation (start : Place) (c : Cursor) : Except ReadError (Option Nat × Cursor) :=
  if !c.peek.isDigit then .ok (none, c)
  else if c.peek == '0' then stopSince .blockScalar start .zeroIndentation c.place
  else .ok (some (c.peek.toNat - 48), c.next)

/-- Reads the indicators of a block in either order. -/
def readIndicators (start : Place) (c : Cursor) :
    Except ReadError (Chomping × Option Nat × Cursor) := do
  let (chomping, indentation, c) ←
    match Chomping.ofIndicator? c.peek with
    | some chomping => do
      let (indentation, c) ← readIndentation start c.next
      pure (chomping, indentation, c)
    | none => do
      let (indentation, c) ← readIndentation start c
      match indentation, Chomping.ofIndicator? c.peek with
      | some _, some chomping => pure (chomping, indentation, c.next)
      | _, _ => pure (.clip, indentation, c)
  if c.peek == ' ' || endsLine c.peek then return (chomping, indentation, c)
  else stopSince .blockScalar start (.indicatorsExpected c.peek) c.place

/-- Steps over the rest of the line with the indicators, which may hold a comment. -/
def skipHeader (start : Place) (c : Cursor) : Except ReadError Cursor :=
  let c := c.skipWhile (· == ' ')
  let c := if c.peek == '#' then c.skipWhile (!endsLine ·) else c
  if !endsLine c.peek then stopSince .blockScalar start (.lineEndExpected c.peek) c.place
  else
    match c.lineBreak? with
    | some (_, c) => .ok c
    | none => .ok c

/-- Steps over the empty lines in front of a block, collects their breaks, and
    finds the deepest indentation among these lines and the next one. -/
def leadingBreaks : (rounds : Nat) → (read : List Char) → (deepest : Nat) → Cursor →
    List Char × Nat × Cursor
  | 0, read, deepest, c => (read, deepest, c)
  | rounds + 1, read, deepest, c =>
    if c.peek == ' ' then leadingBreaks rounds read (max deepest c.next.place.column) c.next
    else
      match c.lineBreak? with
      | some (b, c) => leadingBreaks rounds (read ++ [b]) deepest c
      | none => (read, deepest, c)

/-- Steps over spaces up to an indentation. -/
def skipIndentation (indent : Nat) (c : Cursor) : Cursor :=
  c.skip (min (indent - c.place.column) (c.takeWhile (· == ' ')).length)

/-- Steps over empty lines inside a block and the indentation of the next line, and
    collects the breaks. -/
def blockBreaks (indent : Nat) : (rounds : Nat) → (read : List Char) → Cursor → List Char × Cursor
  | 0, read, c => (read, c)
  | rounds + 1, read, c =>
    let c := skipIndentation indent c
    match c.lineBreak? with
    | some (b, c) => blockBreaks indent rounds (read ++ [b]) c
    | none => (read, c)

/-- Whether a cursor stands at the text of a line of a block. -/
def atBlockLine (indent : Nat) (c : Cursor) : Bool := c.place.column == indent && c.peek != endChar

/-- Reads the lines of a block, `breaks` being the empty lines in front of the next
    one. Returns the text up to the last line, the break behind that line, and the
    empty lines at the end. -/
def blockLines (folded : Bool) (indent : Nat) : (rounds : Nat) → (read breaks : List Char) →
    Cursor → List Char × List Char × List Char × Cursor
  | 0, read, breaks, c => (read, [], breaks, c)
  | rounds + 1, read, breaks, c =>
    let startsWithWord := !isSpace c.peek
    let line := c.takeWhile (!endsLine ·)
    let read := read ++ breaks ++ line
    let c := c.skip line.length
    let (last, c) := match c.lineBreak? with
      | some (b, c) => ([b], c)
      | none => ([], c)
    let (breaks, c) := blockBreaks indent (c.rest.length + 1) [] c
    if atBlockLine indent c then
      let joint :=
        if folded && last == ['\n'] && startsWithWord && !isSpace c.peek then
          if breaks.isEmpty then [' '] else []
        else last
      blockLines folded indent rounds (read ++ joint) breaks c
    else (read, last, breaks, c)

/-- Reads a block scalar, from its mark on, inside a block with indentation `outer`. -/
def readBlock (outer : Nat) (c : Cursor) : Except ReadError (List Char × Cursor) := do
  let start := c.place
  let folded := c.peek == '>'
  let (chomping, indentation, c) ← readIndicators start c.next
  let c ← skipHeader start c
  let least := max outer 1
  let (breaks, indent, c) := match indentation with
    | some more =>
      let (breaks, after) := blockBreaks (least + more - 1) (c.rest.length + 1) [] c
      (breaks, least + more - 1, after)
    | none =>
      let (breaks, deepest, after) := leadingBreaks c.rest.length [] 0 c
      (breaks, max least deepest, after)
  let (read, last, breaks, c) :=
    if atBlockLine indent c then blockLines folded indent (c.rest.length + 1) [] breaks c
    else ([], [], breaks, c)
  return (match chomping with
    | .strip => read
    | .clip => read ++ last
    | .keep => read ++ last ++ breaks, c)

end SchemaGuard.Yaml
