/-
  SchemaGuard — what is wrong with a YAML text.

  A `ReadError` says what the reader was doing and since where, what it did not
  find, and where. `ReadError.message` shows both places with their lines.
-/
import SchemaGuard.Document.Yaml.Place
import SchemaGuard.Text.Quoted

namespace SchemaGuard.Yaml

/-- What a reader does when it stops. -/
inductive Activity where
  | simpleKey
  | nextToken
  | blockScalar
  | doubleQuoted
  | quoted
  | blockNode
  | flowNode
  | blockCollection
  | blockMapping
  | flowSequence
  | flowMapping
  /-- reading the only document of a text -/
  | singleDocument
  /-- collecting the fields of a mapping -/
  | mapping
deriving DecidableEq, Repr

/-- The wording of an activity. -/
def Activity.text : Activity → String
  | simpleKey => "while scanning a simple key"
  | nextToken => "while scanning for the next token"
  | blockScalar => "while scanning a block scalar"
  | doubleQuoted => "while scanning a double-quoted scalar"
  | quoted => "while scanning a quoted scalar"
  | blockNode => "while parsing a block node"
  | flowNode => "while parsing a flow node"
  | blockCollection => "while parsing a block collection"
  | blockMapping => "while parsing a block mapping"
  | flowSequence => "while parsing a flow sequence"
  | flowMapping => "while parsing a flow mapping"
  | singleDocument => "expected a single document in the stream"
  | mapping => "while constructing a mapping"

/-- What a text does not have where it is needed, or has where it is not allowed;
    `found` is the name of a token. -/
inductive Problem where
  | colonMissing
  | cannotStart (c : Char)
  | entryNotAllowed
  | keyNotAllowed
  | valueNotAllowed
  | zeroIndentation
  | indicatorsExpected (c : Char)
  | lineEndExpected (c : Char)
  | hexExpected (digits : Nat) (c : Char)
  | unknownEscape (c : Char)
  /-- an escape of a code that no text can hold, such as half of a surrogate pair -/
  | noCharacter
  | endInsideQuotes
  | documentMarkInsideQuotes
  | contentExpected (found : String)
  | blockEndExpected (found : String)
  | sequenceSeparatorExpected (found : String)
  | mappingSeparatorExpected (found : String)
  | documentStartExpected (found : String)
  | anotherDocument
  | keyNotScalar
deriving DecidableEq, Repr

/-- A character in quotes. -/
def quotedChar (c : Char) : String := Text.quoted (String.singleton c)

/-- The wording of a problem. -/
def Problem.text : Problem → String
  | colonMissing => "could not find expected ':'"
  | cannotStart c => "found character " ++ quotedChar c ++ " that cannot start any token"
  | entryNotAllowed => "sequence entries are not allowed here"
  | keyNotAllowed => "mapping keys are not allowed here"
  | valueNotAllowed => "mapping values are not allowed here"
  | zeroIndentation => "expected indentation indicator in the range 1-9, but found 0"
  | indicatorsExpected c =>
    "expected chomping or indentation indicators, but found " ++ quotedChar c
  | lineEndExpected c => "expected a comment or a line break, but found " ++ quotedChar c
  | hexExpected digits c =>
    "expected escape sequence of " ++ toString digits ++ " hexadecimal numbers, but found " ++
      quotedChar c
  | unknownEscape c => "found unknown escape character " ++ quotedChar c
  | noCharacter => "found escape sequence of no character"
  | endInsideQuotes => "found unexpected end of stream"
  | documentMarkInsideQuotes => "found unexpected document separator"
  | contentExpected found => "expected the node content, but found " ++ Text.quoted found
  | blockEndExpected found => "expected <block end>, but found " ++ Text.quoted found
  | sequenceSeparatorExpected found => "expected ',' or ']', but got " ++ Text.quoted found
  | mappingSeparatorExpected found => "expected ',' or '\x7d', but got " ++ Text.quoted found
  | documentStartExpected found => "expected '<document start>', but found " ++ Text.quoted found
  | anotherDocument => "but found another document"
  | keyNotScalar => "found unhashable key"

/-- Why reading a text stopped. -/
inductive ReadError where
  /-- a character that no text may contain -/
  | unreadable (c : Char) (offset : Nat)
  /-- a problem, and the activity it stopped, with the place where that began -/
  | stopped (activity : Option Activity) (start : Option Place) (problem : Problem) (place : Place)
deriving DecidableEq, Repr

/-- A problem that stops an activity begun elsewhere. -/
def stopSince {α : Type} (activity : Activity) (start : Place) (p : Problem) (place : Place) :
    Except ReadError α :=
  .error (.stopped (some activity) (some start) p place)

/-- A problem with both places; the first one is left out where they are the same. -/
def ReadError.message (text : List Char) : ReadError → String
  | unreadable c offset =>
    "unacceptable character #x" ++ String.ofList (Text.hex 4 c.toNat) ++
      ": special characters are not allowed\n  in \"<unicode string>\", position " ++ toString offset
  | stopped activity start problem place =>
    let context := activity.toList.map Activity.text
    let since := (start.toList.filter fun s => s.line != place.line || s.column != place.column).map
      (Place.text text)
    "\n".intercalate (context ++ since ++ [problem.text, place.text text])

end SchemaGuard.Yaml
