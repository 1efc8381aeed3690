/-
  SchemaGuard — reading JSON texts.

  `Json.read` reads one value and refuses a text at the first place where it
  cannot go on, telling what it expected there (`Json.Problem`). Beyond the
  standard it takes `NaN`, `Infinity` and `-Infinity`. Integers have any size, also
  beyond the `digitLimit` up to which documents can hold them; a number with a
  fraction or an exponent is a double. Of repeated keys the last value counts, at
  the first one's place. All NaNs of JSON texts are one datum.
  Texts are made up of characters, so half of a surrogate pair on its own, which has
  no place in them, ends reading.

  A reading step takes the characters that are left, with the offset of the
  first of them, and returns what is left after it.
-/
import SchemaGuard.Value.Basic
import SchemaGuard.Text.Position

namespace SchemaGuard.Json

/-! ## Problems -/

/-- What a text lacks at the place where reading stopped. -/
inductive Problem where
  | byteOrderMark
  | value
  | propertyName
  | colon
  | comma
  | extraData
  | unterminatedText
  | controlCharacter
  | escape
  | unicodeEscape
  /-- half of a surrogate pair on its own, which no text can hold -/
  | loneSurrogate
deriving DecidableEq, Repr

/-- The wording of a problem. -/
def Problem.text : Problem → String
  | byteOrderMark => "Unexpected UTF-8 BOM (decode using utf-8-sig)"
  | value => "Expecting value"
  | propertyName => "Expecting property name enclosed in double quotes"
  | colon => "Expecting ':' delimiter"
  | comma => "Expecting ',' delimiter"
  | extraData => "Extra data"
  | unterminatedText => "Unterminated string starting at"
  | controlCharacter => "Invalid control character at"
  | escape => "Invalid \\escape"
  | unicodeEscape => "Invalid \\uXXXX escape"
  | loneSurrogate => "Lone surrogate"

/-- A problem and the offset of the character it concerns. -/
structure ReadError where
  problem : Problem
  offset : Nat
deriving DecidableEq, Repr

/-- A problem with its place in the text. -/
def ReadError.message (text : List Char) (e : ReadError) : String :=
  let (line, column) := Text.lineColumn text e.offset
  e.problem.text ++ ": line " ++ toString line ++ " column " ++ toString column ++
    " (char " ++ toString e.offset ++ ")"

/-! ## Places -/

/-- The characters that are left and the offset of the first of them. -/
structure Rest where
  chars : List Char
  offset : Nat
deriving Repr

namespace Rest

/-- Stops here. -/
def stop {α : Type} (r : Rest) (p : Problem) : Except ReadError α := .error ⟨p, r.offset⟩

/-- Leaves out some characters. -/
def skip (r : Rest) (count : Nat) : Rest := ⟨r.chars.drop count, r.offset + count⟩

/-- Leaves out the characters in front that satisfy a test. -/
def skipWhile (r : Rest) (p : Char → Bool) : Rest :=
  ⟨r.chars.dropWhile p, r.offset + (r.chars.takeWhile p).length⟩

/-- Leaves out spaces, tabs and line ends. -/
def skipBlanks (r : Rest) : Rest :=
  r.skipWhile fun c => c == ' ' || c == '\t' || c == '\n' || c == '\r'

end Rest

/-! ## Texts -/

/-- The value of a hexadecimal digit. -/
def hexDigit? (c : Char) : Option Nat :=
  if '0' ≤ c ∧ c ≤ '9' then some (c.toNat - 48)
  else if 'a' ≤ c ∧ c ≤ 'f' then some (c.toNat - 87)
  else if 'A' ≤ c ∧ c ≤ 'F' then some (c.toNat - 55)
  else none

/-- The value of four hexadecimal digits. -/
def hexQuad? (cs : List Char) : Option Nat :=
  match (cs.take 4).mapM hexDigit? with
  | some [a, b, c, d] => some (4096 * a + 256 * b + 16 * c + d)
  | _ => none

/-- The character that an escape letter stands for. -/
def escapeLetter? : Char → Option Char
  | '"' => some '"'
  | '\\' => some '\\'
  | '/' => some '/'
  | 'b' => some '\x08'
  | 'f' => some '\x0c'
  | 'n' => some '\n'
  | 'r' => some '\r'
  | 't' => some '\t'
  | _ => none

/-- The character with a code point, `r` being what follows its escape. -/
def character (code : Nat) (r : Rest) : Except ReadError (Char × Rest) :=
  if 0xD800 ≤ code ∧ code ≤ 0xDFFF then .error ⟨.loneSurrogate, r.offset - 5⟩
  else .ok (Char.ofNat code, r)

/-- Reads the code after `\u`, `r` being what follows the `u`: four hexadecimal
    digits with a character behind them. The upper half of a pair takes its lower
    half with it. -/
def readCode (r : Rest) : Except ReadError (Char × Rest) :=
  match if (r.chars.drop 4).isEmpty then none else hexQuad? r.chars with
  | none => .error ⟨.unicodeEscape, r.offset - 1⟩
  | some code =>
    let r := r.skip 4
    if 0xD800 ≤ code ∧ code < 0xDC00 ∧ ¬(r.chars.drop 6).isEmpty ∧ r.chars.take 2 = ['\\', 'u'] then
      match hexQuad? (r.chars.drop 2) with
      | none => .error ⟨.unicodeEscape, r.offset + 1⟩
      | some low =>
        if 0xDC00 ≤ low ∧ low < 0xE000 then
          .ok (Char.ofNat (0x10000 + (code - 0xD800) * 0x400 + (low - 0xDC00)), r.skip 6)
        else character code r
    else character code r

/-- Reads the rest of a text after its opening quote, which stands at `start`;
    `read` holds the characters so far in reverse. Every round takes at least one
    character. -/
def readText (start : Nat) : (rounds : Nat) → (read : List Char) → Rest → Except ReadError (String × Rest)
  | 0, _, _ => .error ⟨.unterminatedText, start⟩
  | rounds + 1, read, r =>
    match r.chars with
    | [] => .error ⟨.unterminatedText, start⟩
    | '"' :: _ => .ok (String.ofList read.reverse, r.skip 1)
    | '\\' :: [] => .error ⟨.unterminatedText, start⟩
    | '\\' :: 'u' :: _ => do
      let (c, r) ← readCode (r.skip 2)
      readText start rounds (c :: read) r
    | '\\' :: c :: _ =>
      match escapeLetter? c with
      | some c => readText start rounds (c :: read) (r.skip 2)
      | none => r.stop .escape
    | c :: _ => if c.toNat < 32 then r.stop .controlCharacter else readText start rounds (c :: read) (r.skip 1)

/-! ## Numbers -/

/-- The number that a run of decimal digits denotes. -/
def digitsValue (cs : List Char) : Nat := cs.foldl (fun n c => 10 * n + (c.toNat - 48)) 0

/-- The exponent part at the front: its value and its length. -/
def exponentPart (cs : List Char) : Int × Nat :=
  match cs with
  | e :: rest =>
    if e = 'e' ∨ e = 'E' then
      let (sign, signed) := match rest with
        | '-' :: ds => ((-1 : Int), ds)
        | '+' :: ds => (1, ds)
        | ds => (1, ds)
      let digits := signed.takeWhile Char.isDigit
      if digits.isEmpty then (0, 0)
      else (sign * digitsValue digits, 1 + (rest.length - signed.length) + digits.length)
    else (0, 0)
  | [] => (0, 0)

/-- The digits after a point at the front, if there are any. -/
def fractionPart : List Char → List Char
  | '.' :: rest => rest.takeWhile Char.isDigit
  | _ => []

/-- Reads a number: no leading zeros, and digits behind a point. -/
def readNumber (r : Rest) : Except ReadError (Value × Rest) :=
  let negative := r.chars.head? == some '-'
  let body := if negative then r.chars.drop 1 else r.chars
  let whole := match body with
    | '0' :: _ => ['0']
    | _ => body.takeWhile Char.isDigit
  if whole.isEmpty then r.stop .value
  else
    let afterWhole := body.drop whole.length
    let fraction := fractionPart afterWhole
    let fractionLength := if fraction.isEmpty then 0 else fraction.length + 1
    let (exponent, exponentLength) := exponentPart (afterWhole.drop fractionLength)
    let length := (if negative then 1 else 0) + whole.length + fractionLength + exponentLength
    let value : Value :=
      if fractionLength + exponentLength = 0 then
        .int (if negative then -digitsValue whole else digitsValue whole)
      else
        .double (.ofDecimal negative (digitsValue (whole ++ fraction)) (exponent - fraction.length))
    .ok (value, r.skip length)

/-! ## Values -/

/-- The words that stand for values. -/
def words : List (String × Value) :=
  [("null", .null), ("true", .bool true), ("false", .bool false), ("NaN", .double (.nan 0)),
   ("Infinity", .double (.infinite false)), ("-Infinity", .double (.infinite true))]

/-- Reads one of the words. -/
def readWord? (r : Rest) : Option (Value × Rest) :=
  (words.find? fun w => w.1.toList.isPrefixOf r.chars).map fun w => (w.2, r.skip w.1.length)

mutual
/-- Reads a value. Two rounds take at least one character, so twice the length
    of the text bounds the rounds. -/
def readValue : (rounds : Nat) → Rest → Except ReadError (Value × Rest)
  | 0, r => r.stop .value
  | rounds + 1, r =>
    match r.chars with
    | '"' :: _ => do
      let (s, rest) ← readText r.offset rounds [] (r.skip 1)
      return (.text s, rest)
    | '[' :: _ =>
      let inner := (r.skip 1).skipBlanks
      if inner.chars.head? = some ']' then .ok (.list [], inner.skip 1)
      else do
        let (items, rest) ← readItems rounds [] inner
        return (.list items, rest)
    | '{' :: _ =>
      let inner := (r.skip 1).skipBlanks
      if inner.chars.head? = some '}' then .ok (.object [], inner.skip 1)
      else do
        let (fields, rest) ← readFields rounds [] inner
        return (.object fields, rest)
    | _ =>
      match readWord? r with
      | some answer => .ok answer
      | none => readNumber r
/-- Reads the items of a list up to its end; `read` holds those so far in reverse. -/
def readItems : (rounds : Nat) → (read : List Value) → Rest → Except ReadError (List Value × Rest)
  | 0, _, r => r.stop .value
  | rounds + 1, read, r => do
    let (item, rest) ← readValue rounds r
    let rest := rest.skipBlanks
    match rest.chars with
    | ']' :: _ => return ((item :: read).reverse, rest.skip 1)
    | ',' :: _ => readItems rounds (item :: read) (rest.skip 1).skipBlanks
    | _ => rest.stop .comma
/-- Reads the fields of an object up to its end, after those already read. -/
def readFields : (rounds : Nat) → (read : Fields) → Rest → Except ReadError (Fields × Rest)
  | 0, _, r => r.stop .propertyName
  | rounds + 1, read, r =>
    match r.chars with
    | '"' :: _ => do
      let (name, rest) ← readText r.offset rounds [] (r.skip 1)
      let rest := rest.skipBlanks
      if rest.chars.head? = some ':' then
        let (value, rest) ← readValue rounds (rest.skip 1).skipBlanks
        let rest := rest.skipBlanks
        let read := read.set name value
        match rest.chars with
        | '}' :: _ => return (read, rest.skip 1)
        | ',' :: _ => readFields rounds read (rest.skip 1).skipBlanks
        | _ => rest.stop .comma
      else rest.stop .colon
    | _ => r.stop .propertyName
end

/-- Reads a text that holds one value and nothing else. -/
def read (text : List Char) : Except ReadError Value :=
  let start : Rest := ⟨text, 0⟩
  if text.head? = some '\uFEFF' then start.stop .byteOrderMark
  else do
    let (value, rest) ← readValue (2 * text.length + 2) start.skipBlanks
    let rest := rest.skipBlanks
    if rest.chars.isEmpty then return value else rest.stop .extraData

end SchemaGuard.Json
