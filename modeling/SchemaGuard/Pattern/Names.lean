/-
  SchemaGuard — the names of characters.

  A pattern may give a character by its name in the Unicode character database. The database is
  no part of this library: what it says is the parameter `CharacterNames`, and whatever depends
  on patterns takes it along. The instance that programs use knows the ASCII characters.
-/

namespace SchemaGuard

/-- What the Unicode character database says of names. -/
class CharacterNames where
  /-- the code point of the character with a name, if there is one -/
  code? : String → Option Nat

namespace Pattern

/-- Whether names of characters may contain a character: they are made up of letters and digits
    of ASCII, spaces and hyphens. -/
def isNameChar (c : Char) : Bool := c.isAlphanum || c == ' ' || c == '-'

/-- The code point of the character with a name. -/
def namedCode? [CharacterNames] (name : List Char) : Option Nat :=
  if name.all isNameChar then CharacterNames.code? (String.ofList name) else none

/-- The names of the ASCII characters from the space on, in their order. -/
def asciiNames : List String :=
  let letters := ((List.range 26).map fun i => String.singleton (Char.ofNat (65 + i)))
  ["SPACE", "EXCLAMATION MARK", "QUOTATION MARK", "NUMBER SIGN", "DOLLAR SIGN", "PERCENT SIGN",
    "AMPERSAND", "APOSTROPHE", "LEFT PARENTHESIS", "RIGHT PARENTHESIS", "ASTERISK", "PLUS SIGN",
    "COMMA", "HYPHEN-MINUS", "FULL STOP", "SOLIDUS"] ++
  ["ZERO", "ONE", "TWO", "THREE", "FOUR", "FIVE", "SIX", "SEVEN", "EIGHT", "NINE"].map
    ("DIGIT " ++ ·) ++
  ["COLON", "SEMICOLON", "LESS-THAN SIGN", "EQUALS SIGN", "GREATER-THAN SIGN", "QUESTION MARK",
    "COMMERCIAL AT"] ++
  letters.map ("LATIN CAPITAL LETTER " ++ ·) ++
  ["LEFT SQUARE BRACKET", "REVERSE SOLIDUS", "RIGHT SQUARE BRACKET", "CIRCUMFLEX ACCENT",
    "LOW LINE", "GRAVE ACCENT"] ++
  letters.map ("LATIN SMALL LETTER " ++ ·) ++
  ["LEFT CURLY BRACKET", "VERTICAL LINE", "RIGHT CURLY BRACKET", "TILDE"]

/-- The ASCII characters by their names, in capital or small letters. -/
instance : CharacterNames where
  code? name :=
    (asciiNames.idxOf? (String.ofList (name.toList.map Char.toUpper))).map (· + 32)

example : namedCode? "DOLLAR SIGN".toList = some '$'.toNat := by decide +kernel
example : namedCode? "tilde".toList = some '~'.toNat := by decide +kernel

end Pattern

end SchemaGuard
