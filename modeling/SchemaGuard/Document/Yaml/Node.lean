/-
  SchemaGuard — nodes of YAML texts.

  A `Node` is a scalar, a sequence or a mapping with the place where it begins.
  `Node.ofTokens` arranges the tokens of one document; a text without a document
  has no node. A missing item, key or value is an empty plain scalar.
-/
import SchemaGuard.Document.Yaml.Token

namespace SchemaGuard.Yaml

/-- A part of a document. -/
inductive Node where
  | scalar (text : String) (plain : Bool) (place : Place)
  | sequence (items : List Node) (place : Place)
  | mapping (fields : List (Node × Node)) (place : Place)
deriving Repr

namespace Node

/-- The place where a node begins. -/
def place : Node → Place
  | scalar _ _ p | sequence _ p | mapping _ p => p

/-- What stands where nothing is written. -/
def empty (p : Place) : Node := scalar "" true p

end Node

/-! ## The tokens that are left -/

namespace Tokens

/-- The next token; at the end of the tokens, the problem behind them. -/
def head (s : Tokens) : Except ReadError Token :=
  match s.tokens with
  | t :: _ => .ok t
  | [] => .error (s.ending.getD (.stopped none none (.contentExpected TokenKind.streamEnd.name) ⟨0, 0, 0⟩))

/-- Refuses the next token. -/
def refuse {α : Type} (s : Tokens) : Except ReadError α := do
  let t ← s.head
  .error (.stopped none none (.contentExpected t.kind.name) t.place)

/-- Takes the next token away. -/
def tail (s : Tokens) : Tokens := { s with tokens := s.tokens.drop 1 }

/-- Whether the next token is of one of some kinds. -/
def nextIs (s : Tokens) (kinds : List TokenKind) : Except ReadError Bool := do
  return kinds.contains (← s.head).kind

end Tokens

/-! ## Nodes of tokens -/

/-- A node with the tokens behind it. -/
abbrev Read := Except ReadError (Node × Tokens)

mutual
/-- Reads a node. Block collections are taken only where `block` says so, and items
    without a block of their own, as under a key, only where `bare` says so. Every
    four rounds take at least one token. -/
def readNode : (rounds : Nat) → (block bare : Bool) → Tokens → Read
  | 0, _, _, s => s.refuse
  | rounds + 1, block, bare, s => do
    let t ← s.head
    match t.kind, block, bare with
    | .blockEntry, _, true => do
      let (items, s) ← readBareItems rounds [] s
      return (.sequence items t.place, s)
    | .scalar text plain, _, _ => return (.scalar text plain t.place, s.tail)
    | .flowSequenceStart, _, _ => do
      let (items, s) ← readFlowItems rounds t.place [] s.tail
      return (.sequence items t.place, s)
    | .flowMappingStart, _, _ => do
      let (fields, s) ← readFlowFields rounds t.place [] s.tail
      return (.mapping fields t.place, s)
    | .blockSequenceStart, true, _ => do
      let (items, s) ← readBlockItems rounds t.place [] s.tail
      return (.sequence items t.place, s)
    | .blockMappingStart, true, _ => do
      let (fields, s) ← readBlockFields rounds t.place [] s.tail
      return (.mapping fields t.place, s)
    | kind, _, _ =>
      stopSince (if block then .blockNode else .flowNode) t.place (.contentExpected kind.name) t.place
/-- Reads a node, or nothing in front of a token of one of some kinds. -/
def readOptional : (rounds : Nat) → (enders : List TokenKind) → (block bare : Bool) → Tokens → Read
  | 0, _, _, _, s => s.refuse
  | rounds + 1, enders, block, bare, s => do
    if ← s.nextIs enders then return (.empty (← s.head).place, s)
    else readNode rounds block bare s
/-- Reads the items of a block sequence up to its end. -/
def readBlockItems : (rounds : Nat) → (start : Place) → (read : List Node) → Tokens →
    Except ReadError (List Node × Tokens)
  | 0, _, _, s => s.refuse
  | rounds + 1, start, read, s => do
    let t ← s.head
    match t.kind with
    | .blockEntry => do
      let (item, s) ← readOptional rounds [.blockEntry, .blockEnd] true false s.tail
      readBlockItems rounds start (read ++ [item]) s
    | .blockEnd => return (read, s.tail)
    | kind => stopSince .blockCollection start (.blockEndExpected kind.name) t.place
/-- Reads items that stand under a key without a block of their own. -/
def readBareItems : (rounds : Nat) → (read : List Node) → Tokens →
    Except ReadError (List Node × Tokens)
  | 0, _, s => s.refuse
  | rounds + 1, read, s => do
    if ← s.nextIs [.blockEntry] then
      let (item, s) ← readOptional rounds [.blockEntry, .key, .value, .blockEnd] true false s.tail
      readBareItems rounds (read ++ [item]) s
    else return (read, s)
/-- Reads the fields of a block mapping up to its end. -/
def readBlockFields : (rounds : Nat) → (start : Place) → (read : List (Node × Node)) → Tokens →
    Except ReadError (List (Node × Node) × Tokens)
  | 0, _, _, s => s.refuse
  | rounds + 1, start, read, s => do
    let t ← s.head
    match t.kind with
    | .key => do
      let (key, s) ← readOptional rounds [.key, .value, .blockEnd] true true s.tail
      let (v, s) ← readBlockValue rounds s
      readBlockFields rounds start (read ++ [(key, v)]) s
    | .blockEnd => return (read, s.tail)
    | kind => stopSince .blockMapping start (.blockEndExpected kind.name) t.place
/-- Reads the value of a field of a block mapping, if there is one. -/
def readBlockValue : (rounds : Nat) → Tokens → Read
  | 0, s => s.refuse
  | rounds + 1, s => do
    if ← s.nextIs [.value] then readOptional rounds [.key, .value, .blockEnd] true true s.tail
    else return (.empty (← s.head).place, s)
/-- Reads the items of a flow sequence up to its end. A field among them is a mapping
    of its own. -/
def readFlowItems : (rounds : Nat) → (start : Place) → (read : List Node) → Tokens →
    Except ReadError (List Node × Tokens)
  | 0, _, _, s => s.refuse
  | rounds + 1, start, read, s => do
    if ← s.nextIs [.flowSequenceEnd] then return (read, s.tail)
    else
      let s ← skipSeparator s start read.isEmpty .flowSequence .sequenceSeparatorExpected
      let t ← s.head
      match t.kind with
      | .flowSequenceEnd => return (read, s.tail)
      | .key => do
        let (key, s) ← readOptional rounds [.value, .flowEntry, .flowSequenceEnd] false false s.tail
        let (v, s) ← readFlowValue rounds .flowSequenceEnd s
        readFlowItems rounds start (read ++ [.mapping [(key, v)] t.place]) s
      | _ => do
        let (item, s) ← readNode rounds false false s
        readFlowItems rounds start (read ++ [item]) s
/-- Reads the fields of a flow mapping up to its end. -/
def readFlowFields : (rounds : Nat) → (start : Place) → (read : List (Node × Node)) → Tokens →
    Except ReadError (List (Node × Node) × Tokens)
  | 0, _, _, s => s.refuse
  | rounds + 1, start, read, s => do
    if ← s.nextIs [.flowMappingEnd] then return (read, s.tail)
    else
      let s ← skipSeparator s start read.isEmpty .flowMapping .mappingSeparatorExpected
      let t ← s.head
      match t.kind with
      | .flowMappingEnd => return (read, s.tail)
      | .key => do
        let (key, s) ← readOptional rounds [.value, .flowEntry, .flowMappingEnd] false false s.tail
        let (v, s) ← readFlowValue rounds .flowMappingEnd s
        readFlowFields rounds start (read ++ [(key, v)]) s
      | _ => do
        let (key, s) ← readNode rounds false false s
        readFlowFields rounds start (read ++ [(key, .empty (← s.head).place)]) s
/-- Reads the value of a field inside a flow collection, if there is one. -/
def readFlowValue : (rounds : Nat) → (closing : TokenKind) → Tokens → Read
  | 0, _, s => s.refuse
  | rounds + 1, closing, s => do
    if ← s.nextIs [.value] then readOptional rounds [.flowEntry, closing] false false s.tail
    else return (.empty (← s.head).place, s)
/-- Steps over the comma between two parts of a flow collection. -/
def skipSeparator (s : Tokens) (start : Place) (first : Bool) (activity : Activity)
    (problem : String → Problem) : Except ReadError Tokens := do
  if first then return s
  else
    let t ← s.head
    if t.kind == .flowEntry then return s.tail
    else stopSince activity start (problem t.kind.name) t.place
end

/-! ## Documents -/

/-- Steps over the marks that end documents. -/
def skipDocumentEnds (s : Tokens) : Tokens :=
  { s with tokens := s.tokens.dropWhile fun t => t.kind == .documentEnd }

/-- Reads the content of a document that begins with a mark. -/
def readMarked (rounds : Nat) (s : Tokens) : Read := do
  let t ← s.head
  if t.kind == .documentStart then
    readOptional rounds [.documentStart, .documentEnd, .streamEnd] true false s.tail
  else .error (.stopped none none (.documentStartExpected t.kind.name) t.place)

/-- The node of the only document of a text, if there is a document. -/
def Node.ofTokens (tokens : Tokens) : Except ReadError (Option Node) := do
  let rounds := 4 * tokens.tokens.length + 4
  if ← tokens.nextIs [.streamEnd] then return none
  else
    let (node, s) ←
      if ← tokens.nextIs [.documentStart] then readMarked rounds tokens
      else readNode rounds true false tokens
    let t ← (skipDocumentEnds s).head
    match t.kind with
    | .streamEnd => return some node
    | .documentStart => stopSince .singleDocument node.place .anotherDocument t.place
    | kind => .error (.stopped none none (.documentStartExpected kind.name) t.place)

end SchemaGuard.Yaml
