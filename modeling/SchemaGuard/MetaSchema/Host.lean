/-
  SchemaGuard — the host part of an identifier.

  An identifier is taken apart before it is compared with others. At its start or
  behind its scheme, `//` opens a host part, which ends before the next `/`, `?` or
  `#`. The part is malformed if its brackets hold no address, or if a character in
  it stands for one that ends a host part or divides it.
-/
import SchemaGuard.Pattern.Reader

namespace SchemaGuard.Host

/-! ## Addresses -/

/-- A number up to 255 in decimal digits, without leading zeros. -/
def isByte (digits : List Char) : Bool :=
  !digits.isEmpty && digits.length ≤ 3 && digits.all Char.isDigit &&
    (digits == ['0'] || digits.head? != some '0') && Pattern.digitsValue 10 digits ≤ 255

/-- Four bytes with dots between them. -/
def isQuad (cs : List Char) : Bool :=
  let bytes := cs.splitOn '.'
  bytes.length == 4 && bytes.all isByte

/-- Up to four hexadecimal digits. -/
def isGroup (digits : List Char) : Bool :=
  !digits.isEmpty && digits.length ≤ 4 && digits.all Pattern.isHexDigit

/-- What stands between the colons of an address; four bytes at its end are two groups. -/
def colonParts? (cs : List Char) : Option (List (List Char)) :=
  let parts := cs.splitOn ':'
  let last := parts.getLastD []
  if parts.length < 3 then none
  else if !last.contains '.' then some parts
  else if isQuad last then some (parts.dropLast ++ [['0'], ['0']])
  else none

/-- How many groups stand on one side of a gap, nothing being none. -/
def groupCount? (side : List (List Char)) : Option Nat :=
  if side == [[]] then some 0
  else if side.all isGroup then some side.length
  else none

/-- Eight groups, or fewer with one gap for the others. -/
def areGroups (parts : List (List Char)) : Bool :=
  match (parts.drop 1).dropLast.findIdx? List.isEmpty with
  | none => parts.length == 8 && parts.all isGroup
  | some i =>
    match groupCount? (parts.take (i + 1)), groupCount? (parts.drop (i + 2)) with
    | some before, some after => before + after < 8
    | _, _ => false

/-- An address of version 6, with or without a zone behind a percent sign. -/
def isSixth (cs : List Char) : Bool :=
  let address := cs.takeWhile (· != '%')
  let zone := cs.drop address.length
  (zone.isEmpty || (1 < zone.length && !(zone.drop 1).contains '%')) &&
    (colonParts? address).any areGroups

/-- An address of a later version, behind the `v` that it begins with. -/
def isFuture (cs : List Char) : Bool :=
  let version := cs.takeWhile Pattern.isHexDigit
  match cs.drop version.length with
  | '.' :: _ :: _ => !version.isEmpty
  | _ => false

/-- What brackets may hold. -/
def isAddress : List Char → Bool
  | 'v' :: cs => isFuture cs
  | cs => isSixth cs

/-! ## Host parts -/

/-- An identifier without leading blanks and controls, and without tabs and line ends. -/
def cleaned (identifier : List Char) : List Char :=
  (identifier.dropWhile (·.toNat ≤ 32)).filter fun c => c != '\t' && c != '\n' && c != '\r'

/-- A letter, then letters, digits and some marks. -/
def isScheme : List Char → Bool
  | [] => false
  | c :: cs => Pattern.isAsciiLetter c && cs.all fun d =>
    Pattern.isAsciiLetter d || d.isDigit || d == '+' || d == '-' || d == '.'

/-- The host part of an identifier that has one. -/
def part? (identifier : List Char) : Option (List Char) :=
  let whole := cleaned identifier
  let scheme := whole.takeWhile (· != ':')
  let rest := if isScheme scheme && scheme.length < whole.length then whole.drop (scheme.length + 1)
    else whole
  match rest with
  | '/' :: '/' :: cs => some (cs.takeWhile fun c => c != '/' && c != '?' && c != '#')
  | _ => none

/-- Brackets hold an address, or there are none. -/
def bracketsFit (host : List Char) : Bool :=
  match host.contains '[', host.contains ']' with
  | false, false => true
  | true, true => isAddress (((host.dropWhile (· != '[')).drop 1).takeWhile (· != ']'))
  | _, _ => false

/-- The characters whose compatible forms have one of `/`, `?`, `#`, `@` and `:` in them. -/
def dividing : List Char :=
  ['\u2047', '\u2048', '\u2049', '\u2100', '\u2101', '\u2105', '\u2106', '\u2a74', '\ufe13',
   '\ufe16', '\ufe55', '\ufe56', '\ufe5f', '\ufe6b', '\uff03', '\uff0f', '\uff1a', '\uff1f', '\uff20']

/-- Whether an identifier has a malformed host part. -/
def isMalformed (identifier : List Char) : Bool :=
  match part? identifier with
  | none => false
  | some host => !bracketsFit host || host.any dividing.contains

end SchemaGuard.Host
