/-
  SchemaGuard — tokens of YAML texts.

  `tokenize` cuts a text into tokens: scalars, the marks of flow collections, and
  marks that show where block collections begin and end by their indentation.
  Directives, tags, anchors and aliases are not read.

  A word may turn out to be a key only when the colon behind it is reached. Such
  a word is a `Candidate`; there is at most one in every open flow collection and
  one outside. A candidate must be on one line with its colon and not too long.
-/
import SchemaGuard.Document.Yaml.Scalar

namespace SchemaGuard.Yaml

/-! ## Tokens -/

/-- The kinds of tokens. -/
inductive TokenKind where
  | streamEnd
  | documentStart
  | documentEnd
  | blockSequenceStart
  | blockMappingStart
  | blockEnd
  | flowSequenceStart
  | flowSequenceEnd
  | flowMappingStart
  | flowMappingEnd
  | flowEntry
  | blockEntry
  | key
  | value
  /-- a scalar; only a plain one can stand for something else than a text -/
  | scalar (text : String) (plain : Bool)
deriving DecidableEq, Repr

/-- The name of a kind in messages. -/
def TokenKind.name : TokenKind → String
  | streamEnd => "<stream end>"
  | documentStart => "<document start>"
  | documentEnd => "<document end>"
  | blockSequenceStart => "<block sequence start>"
  | blockMappingStart => "<block mapping start>"
  | blockEnd => "<block end>"
  | flowSequenceStart => "["
  | flowSequenceEnd => "]"
  | flowMappingStart => "\x7b"
  | flowMappingEnd => "\x7d"
  | flowEntry => ","
  | blockEntry => "-"
  | key => "?"
  | value => ":"
  | scalar _ _ => "<scalar>"

/-- A token and the place where it begins. -/
structure Token where
  kind : TokenKind
  place : Place
deriving DecidableEq, Repr

/-! ## States -/

/-- A word that is a key if a colon follows: the number of tokens before it, its
    place, and whether nothing else than a key can stand there. -/
structure Candidate where
  index : Nat
  place : Place
  required : Bool
deriving Repr

/-- The largest distance of a candidate from its colon. -/
def candidateReach : Nat := 1024

/-- A reader of tokens: where it is, the tokens so far with the last one first, the
    number of open flow collections, the indentations of the open block
    collections with the innermost one first, whether a key may stand here, and the
    candidates by the number of open flow collections around them. -/
structure Scan where
  cursor : Cursor
  tokens : List Token
  flow : Nat
  indents : List Nat
  keyAllowed : Bool
  candidates : List (Nat × Candidate)
deriving Repr

namespace Scan

/-- A reader in front of a text. -/
def ofText (text : List Char) : Scan := ⟨.ofText text, [], 0, [], true, []⟩

/-- The place of a reader. -/
def place (s : Scan) : Place := s.cursor.place

/-- Stops without an activity that began elsewhere. -/
def stop {α : Type} (s : Scan) (p : Problem) : Except ReadError α := .error (.stopped none none p s.place)

/-- Adds a token of a kind at the place of the reader. -/
def push (s : Scan) (kind : TokenKind) : Scan := { s with tokens := ⟨kind, s.place⟩ :: s.tokens }

/-- Adds a token and steps over its characters. -/
def pushMark (s : Scan) (kind : TokenKind) (length : Nat) : Scan :=
  let s := s.push kind
  { s with cursor := s.cursor.skip length }

/-- Adds tokens at a place where one was read before, in front of it. -/
def insert (s : Scan) (index : Nat) (kinds : List TokenKind) (place : Place) : Scan :=
  let later := s.tokens.take (s.tokens.length - index)
  let earlier := s.tokens.drop (s.tokens.length - index)
  { s with tokens := later ++ (kinds.map fun kind => ⟨kind, place⟩).reverse ++ earlier }

/-! ### Indentation -/

/-- The least indentation of the parts of the innermost open block collection. -/
def innerIndent (s : Scan) : Nat := s.indents.head?.elim 0 (· + 1)

/-- Whether a column is deeper than all open block collections. -/
def isDeeper (s : Scan) (column : Nat) : Bool := s.indents.head?.all (· < column)

/-- Opens a block collection. -/
def openBlock (s : Scan) (column : Nat) : Scan := { s with indents := column :: s.indents }

/-- Opens a block collection at the place of the reader, if it is deeper there. -/
def openBlockHere (s : Scan) (kind : TokenKind) : Scan :=
  if s.isDeeper s.place.column then (s.openBlock s.place.column).push kind else s

/-- Closes the open block collections whose indentation satisfies a test. Inside
    flow collections indentation does not count. -/
def closeBlocks (s : Scan) (p : Nat → Bool) : Scan :=
  if s.flow = 0 then
    let closed := s.indents.takeWhile p
    let s := closed.foldl (fun s _ => s.push .blockEnd) s
    { s with indents := s.indents.drop closed.length }
  else s

/-- Closes the block collections that are deeper than the place of the reader. -/
def closeDeeper (s : Scan) : Scan := s.closeBlocks (s.place.column < ·)

/-- Closes all block collections. -/
def closeAll (s : Scan) : Scan := s.closeBlocks fun _ => true

/-! ### Candidates -/

/-- The candidate among the parts of the innermost open flow collection. -/
def candidate? (s : Scan) : Option Candidate := s.candidates.lookup s.flow

/-- Takes the innermost candidate away. -/
def dropCandidate (s : Scan) : Scan :=
  { s with candidates := s.candidates.filter fun c => c.1 != s.flow }

/-- Gives up the innermost candidate, which stops reading if it is required. -/
def giveUp (s : Scan) : Except ReadError Scan :=
  match s.candidate? with
  | some c =>
    if c.required then stopSince .simpleKey c.place .colonMissing s.place else .ok s.dropCandidate
  | none => .ok s

/-- Makes the token that is read next a candidate, if a key may stand there. -/
def addCandidate (s : Scan) : Except ReadError Scan :=
  if s.keyAllowed then do
    let s ← s.giveUp
    let required := s.flow == 0 && s.indents.head? == some s.place.column
    return { s with candidates := (s.flow, ⟨s.tokens.length, s.place, required⟩) :: s.candidates }
  else .ok s

/-- Whether a candidate can no longer be a key. -/
def isStale (s : Scan) (c : Candidate) : Bool :=
  c.place.line != s.place.line || candidateReach < s.place.offset - c.place.offset

/-- Gives up the candidates that can no longer be keys. -/
def giveUpStale (s : Scan) : Except ReadError Scan :=
  match s.candidates.find? fun c => s.isStale c.2 && c.2.required with
  | some c => stopSince .simpleKey c.2.place .colonMissing s.place
  | none => .ok { s with candidates := s.candidates.filter fun c => !s.isStale c.2 }

/-- The tokens that are certain not to need a key mark in front of them. -/
def settledTokens (s : Scan) : List Token :=
  let count := s.candidates.foldl (fun n c => min n c.2.index) s.tokens.length
  s.tokens.reverse.take count

/-! ### Blanks -/

/-- Steps over spaces, comments and line breaks. -/
def skipBlanks : (rounds : Nat) → Scan → Scan
  | 0, s => s
  | rounds + 1, s =>
    let c := s.cursor.skipWhile (· == ' ')
    let c := if c.peek == '#' then c.skipWhile (!endsLine ·) else c
    match c.lineBreak? with
    | some (_, c) =>
      skipBlanks rounds { s with cursor := c, keyAllowed := s.keyAllowed || s.flow == 0 }
    | none => { s with cursor := c }

/-- Steps over a byte order mark at the beginning of a text. -/
def skipByteOrderMark (s : Scan) : Scan :=
  if s.place.offset = 0 ∧ s.cursor.peek = '\uFEFF' then { s with cursor := s.cursor.next } else s

/-! ## Reading one token -/

/-- Reads the end of a text. -/
def readEnd (s : Scan) : Except ReadError Scan := do
  let s ← s.closeAll.giveUp
  return { s with keyAllowed := false, candidates := [] }.push .streamEnd

/-- Reads a document mark. -/
def readDocumentMark (s : Scan) (kind : TokenKind) : Except ReadError Scan := do
  let s ← s.closeAll.giveUp
  return { s with keyAllowed := false }.pushMark kind 3

/-- Reads the opening mark of a flow collection, which may be a key as a whole. -/
def readFlowStart (s : Scan) (kind : TokenKind) : Except ReadError Scan := do
  let s ← s.addCandidate
  return { s with flow := s.flow + 1, keyAllowed := true }.pushMark kind 1

/-- Reads the closing mark of a flow collection. -/
def readFlowEnd (s : Scan) (kind : TokenKind) : Except ReadError Scan := do
  let s ← s.giveUp
  return { s with flow := s.flow - 1, keyAllowed := false }.pushMark kind 1

/-- Reads a comma between the parts of a flow collection. -/
def readFlowEntry (s : Scan) : Except ReadError Scan := do
  let s ← s.giveUp
  return { s with keyAllowed := true }.pushMark .flowEntry 1

/-- Reads the dash of an item. -/
def readBlockEntry (s : Scan) : Except ReadError Scan := do
  if s.flow == 0 && !s.keyAllowed then s.stop .entryNotAllowed
  else
    let s := if s.flow = 0 then s.openBlockHere .blockSequenceStart else s
    let s ← s.giveUp
    return { s with keyAllowed := true }.pushMark .blockEntry 1

/-- Reads the question mark of a key. -/
def readKey (s : Scan) : Except ReadError Scan := do
  if s.flow == 0 && !s.keyAllowed then s.stop .keyNotAllowed
  else
    let s := if s.flow = 0 then s.openBlockHere .blockMappingStart else s
    let s ← s.giveUp
    return { s with keyAllowed := s.flow == 0 }.pushMark .key 1

/-- Reads the colon in front of a value. With a candidate before it, that one is a
    key; a block mapping begins there if it is deeper than the open collections. -/
def readValue (s : Scan) : Except ReadError Scan :=
  match s.candidate? with
  | some c =>
    let s := s.dropCandidate
    let begins := s.flow == 0 && s.isDeeper c.place.column
    let kinds := if begins then [.blockMappingStart, .key] else [.key]
    let s := if begins then s.openBlock c.place.column else s
    .ok ({ s.insert c.index kinds c.place with keyAllowed := false }.pushMark .value 1)
  | none =>
    if s.flow == 0 && !s.keyAllowed then s.stop .valueNotAllowed
    else
      let s := if s.flow = 0 then s.openBlockHere .blockMappingStart else s
      .ok ({ s with keyAllowed := s.flow == 0 }.pushMark .value 1)

/-- Adds a scalar whose text has been read. -/
def pushScalar (s : Scan) (text : List Char) (plain : Bool) (c : Cursor) : Scan :=
  { s.push (.scalar (String.ofList text) plain) with cursor := c }

/-- Reads a block scalar. -/
def readBlockScalar (s : Scan) : Except ReadError Scan := do
  let s ← { s with keyAllowed := true }.giveUp
  let (text, c) ← readBlock s.innerIndent s.cursor
  return s.pushScalar text false c

/-- Reads a quoted scalar. -/
def readQuotedScalar (s : Scan) : Except ReadError Scan := do
  let s ← s.addCandidate
  let (text, c) ← readQuoted s.cursor
  return { s with keyAllowed := false }.pushScalar text false c

/-- Reads a plain scalar. A key may stand behind it if its line ended. -/
def readPlainScalar (s : Scan) : Except ReadError Scan := do
  let s ← s.addCandidate
  let (text, lineEnded, c) := readPlain (s.flow != 0) s.innerIndent s.cursor
  return { s with keyAllowed := lineEnded }.pushScalar text true c

/-- The characters that have a meaning of their own at the beginning of a token. -/
def indicators : List Char :=
  ['-', '?', ':', ',', '[', ']', '{', '}', '#', '&', '*', '!', '|', '>', '\'', '"', '%', '@', '\x60']

/-- Whether a plain scalar begins here. -/
def startsPlain (s : Scan) : Bool :=
  let c := s.cursor.peek
  !(endsWord c || indicators.contains c) ||
    (!endsWord (s.cursor.peekAt 1) && (c == '-' || (s.flow == 0 && (c == '?' || c == ':'))))

/-- Whether the character in front is a word of its own. -/
def standsAlone (s : Scan) : Bool := endsWord (s.cursor.peekAt 1)

/-- Reads the token in front of the reader. -/
def readToken (s : Scan) : Except ReadError Scan :=
  let atMark := s.place.column == 0 && s.cursor.atDocumentMark
  match s.cursor.peek with
  | '\x00' => s.readEnd
  | '[' => s.readFlowStart .flowSequenceStart
  | '{' => s.readFlowStart .flowMappingStart
  | ']' => s.readFlowEnd .flowSequenceEnd
  | '}' => s.readFlowEnd .flowMappingEnd
  | ',' => s.readFlowEntry
  | '\'' | '"' => s.readQuotedScalar
  | c =>
    if c == '-' && atMark then s.readDocumentMark .documentStart
    else if c == '.' && atMark then s.readDocumentMark .documentEnd
    else if c == '-' && s.standsAlone then s.readBlockEntry
    else if c == '?' && (s.flow != 0 || s.standsAlone) then s.readKey
    else if c == ':' && (s.flow != 0 || s.standsAlone) then s.readValue
    else if (c == '|' || c == '>') && s.flow == 0 then s.readBlockScalar
    else if s.startsPlain then s.readPlainScalar
    else .error (.stopped (some .nextToken) none (.cannotStart c) s.place)

end Scan

/-! ## Reading all tokens -/

/-- The tokens of a text up to its end, or up to the problem that ends it. -/
structure Tokens where
  tokens : List Token
  ending : Option ReadError
deriving Repr

/-- Reads tokens up to the end of a text. What a problem interrupts keeps the tokens
    that were certain before. -/
def scanTokens : (rounds : Nat) → Scan → Tokens
  | 0, s => ⟨s.tokens.reverse, none⟩
  | rounds + 1, s =>
    let s := s.skipByteOrderMark.skipBlanks (s.cursor.rest.length + 1)
    match s.giveUpStale with
    | .error e => ⟨s.settledTokens, some e⟩
    | .ok s =>
      let s := s.closeDeeper
      match s.readToken with
      | .error e => ⟨s.settledTokens, some e⟩
      | .ok s =>
        if s.tokens.head?.any fun t => t.kind == .streamEnd then ⟨s.tokens.reverse, none⟩
        else
          match s.giveUpStale with
          | .error e => ⟨s.settledTokens, some e⟩
          | .ok s => scanTokens rounds s

/-- The tokens of a text. Every round reads at least one character. -/
def tokenize (text : List Char) : Tokens :=
  match text.zipIdx.find? fun c => !isReadable c.1 with
  | some (c, offset) => ⟨[], some (.unreadable c offset)⟩
  | none => scanTokens (text.length + 2) (.ofText text)

end SchemaGuard.Yaml
