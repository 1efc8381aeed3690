/-
  SchemaGuard — reading patterns.

  `read` turns a text into an expression or refuses it with the first problem it
  meets. Characters are taken one token at a time, a token being a character or a
  backslash with the character behind it; the token in front is always known, so
  a backslash that ends the pattern is a problem as soon as everything before it
  has been taken.

  * `Reading` is the state: what is left, the global modes, and the groups so far;
  * `readEscape`, `readSet`, `readBounds` and `readFlags` read the parts of an item;
  * `readAlternatives`, `readBranches`, `readItems` and `readGroup` read the rest,
    with a number of rounds that the length of the pattern bounds.
-/
import SchemaGuard.Fault
import SchemaGuard.Pattern.Names
import SchemaGuard.Pattern.Problem
import SchemaGuard.Pattern.Syntax
import SchemaGuard.Text.Identifier

namespace SchemaGuard.Pattern

/-! ## Tokens -/

/-- A character, or a backslash with the character behind it. -/
inductive Token where
  | plain (c : Char)
  | escaped (c : Char)
deriving DecidableEq, Repr

/-- A token as it is written. -/
def Token.chars : Token → List Char
  | plain c => [c]
  | escaped c => ['\\', c]

/-- Why reading ended without an expression. -/
inductive Failure where
  | refused (r : Refusal)
  | fault (f : Fault)
deriving DecidableEq, Repr

/-- The state of reading. -/
structure Reading where
  /-- what is left -/
  chars : List Char
  /-- how many characters were taken -/
  offset : Nat
  /-- the modes of the whole pattern -/
  flags : Flags
  /-- the widths of groups 1, 2, …; none while a group is open -/
  groups : List (Option Width)
  /-- the named groups -/
  names : List (String × Nat)
  /-- inside a look-behind, the number of the first group that opens in it -/
  behind : Option Nat
  /-- the groups that conditions ask for, with the places of their numbers -/
  asked : List (Nat × Nat)
deriving Repr

/-- A reading step. -/
abbrev Reader := StateT Reading (Except Failure)

/-- Refuses the pattern for a problem at an offset. -/
def refuseAt {α : Type} (p : Problem) (offset : Nat) : Reader α :=
  fun _ => .error (.refused ⟨p, some offset⟩)

/-- Refuses the pattern for a problem a number of characters before the token in front. -/
def refuse {α : Type} (p : Problem) (back : Nat) : Reader α :=
  fun r => .error (.refused ⟨p, some (r.offset - back)⟩)

/-- The token in front. -/
def front (r : Reading) : Option Token :=
  match r.chars with
  | [] => none
  | ['\\'] => none
  | '\\' :: c :: _ => some (.escaped c)
  | c :: _ => some (.plain c)

/-- Goes on to what is left after some characters. -/
def moveOn (left : List Char) (count : Nat) : Reader Unit := fun r =>
  if left = ['\\'] then .error (.refused ⟨.trailingBackslash, some (r.offset + count)⟩)
  else .ok ((), { r with chars := left, offset := r.offset + count })

/-- Takes the token in front, if there is one. -/
def take : Reader (Option Token) := do
  let r ← get
  match r.chars with
  | [] => return none
  | '\\' :: c :: left => do
    moveOn left 2
    return some (.escaped c)
  | c :: left => do
    moveOn left 1
    return some (.plain c)

/-- Takes a character if it is in front. -/
def takeChar (c : Char) : Reader Bool := do
  if front (← get) = some (.plain c) then
    let _ ← take
    return true
  else return false

/-- Takes at most `count` characters that satisfy a test. -/
def takeUpTo (p : Char → Bool) : (count : Nat) → Reader (List Char)
  | 0 => return []
  | count + 1 => do
    match front (← get) with
    | some (.plain c) =>
      if p c then
        let _ ← take
        return c :: (← takeUpTo p count)
      else return []
    | _ => return []

/-- Takes all characters in front that satisfy a test. -/
def takeAll (p : Char → Bool) : Reader (List Char) := do takeUpTo p (← get).chars.length

/-- Takes a name of some sort up to its terminator, which is taken too. -/
def takeName (terminator : Char) (sort : String) : Reader (List Char) := do
  go ((← get).chars.length + 1) []
where
  /-- Goes on after the characters of the name so far, in reverse. -/
  go : (rounds : Nat) → List Char → Reader (List Char)
    | 0, _ => refuse (.missingName sort) 0
    | rounds + 1, read => do
      match ← take with
      | none =>
        if read.isEmpty then refuse (.missingName sort) 0
        else refuse (.unterminatedName (String.singleton terminator)) read.length
      | some t =>
        if t = .plain terminator then
          if read.isEmpty then refuse (.missingName sort) 1 else return read.reverse
        else go rounds (t.chars.reverse ++ read)

/-! ## Groups -/

/-- The number of groups, the whole match among them. -/
def Reading.groupCount (r : Reading) : Nat := r.groups.length + 1

/-- The width of a group that has been closed. -/
def Reading.closedWidth? (r : Reading) (group : Nat) : Option Width :=
  if group = 0 then none else (r.groups[group - 1]?).join

/-- The widths of groups, as expressions ask for them. -/
def Reading.widths (r : Reading) (group : Nat) : Width := (r.closedWidth? group).getD ⟨0, 0⟩

/-- The number of a named group. -/
def Reading.named? (r : Reading) (name : List Char) : Option Nat :=
  (r.names.find? fun n => n.1.toList == name).map (·.2)

/-- Opens a group and gives its number. A name must be new. -/
def openGroup (name : Option (List Char)) : Reader Nat := do
  let r ← get
  let group := r.groupCount
  match name with
  | none =>
    set { r with groups := r.groups ++ [none] }
    return group
  | some n =>
    match r.named? n with
    | some earlier => refuse (.redefinedGroup (String.ofList n) group earlier) (n.length + 1)
    | none =>
      set { r with groups := r.groups ++ [none], names := r.names ++ [(String.ofList n, group)] }
      return group

/-- Closes a group with the width of its body. -/
def closeGroup (group : Nat) (width : Width) : Reader Unit :=
  modify fun r => { r with groups := r.groups.set (group - 1) (some width) }

/-- Inside a look-behind only groups may be referred to that were closed before it. -/
def checkLookBehind (group : Nat) : Reader Unit := do
  let r ← get
  match r.behind with
  | none => return ()
  | some first =>
    if (r.closedWidth? group).isNone then refuse .openGroupReference 0
    else if first ≤ group then refuse .lookBehindReference 0
    else return ()

/-- A group name must be an identifier. -/
def checkName (name : List Char) : Reader Unit :=
  if Text.isIdentifier name then return ()
  else refuse (.badGroupName (String.ofList name)) (name.length + 1)

/-- The integer that a text denotes: digits of any script, perhaps grouped by
    single underscores, with a sign and blanks around them. -/
def integer? (text : List Char) : Option Int :=
  let (sign, body) := match Text.trim text with
    | '-' :: ds => ((-1 : Int), ds)
    | '+' :: ds => (1, ds)
    | ds => (1, ds)
  if digitLimit < (body.filter (· != '_')).length then none
  else (digits true 0 body).map fun n => sign * (n : Int)
where
  /-- The value of digits; `gap` holds where an underscore may not stand. -/
  digits (gap : Bool) (value : Nat) : List Char → Option Nat
    | [] => if gap then none else some value
    | '_' :: cs => if gap then none else digits true value cs
    | c :: cs => (Text.digitValue? c.toNat).bind fun d => digits false (10 * value + d) cs

/-! ## Escapes -/

section
variable [CharacterNames]

def isHexDigit (c : Char) : Bool :=
  c.isDigit || ('a' ≤ c && c ≤ 'f') || ('A' ≤ c && c ≤ 'F')

def isOctalDigit (c : Char) : Bool := '0' ≤ c && c ≤ '7'

def isAsciiLetter (c : Char) : Bool := ('a' ≤ c && c ≤ 'z') || ('A' ≤ c && c ≤ 'Z')

/-- The value of digits in a base up to sixteen. -/
def digitsValue (base : Nat) (cs : List Char) : Nat :=
  cs.foldl
    (fun n c => base * n +
      (if c.isDigit then c.toNat - 48 else if 'a' ≤ c then c.toNat - 87 else c.toNat - 55)) 0

/-- The code that a letter after a backslash stands for, wherever it is. -/
def controlCode? : Char → Option Nat
  | 'a' => some 7
  | 'b' => some 8
  | 'f' => some 12
  | 'n' => some 10
  | 'r' => some 13
  | 't' => some 9
  | 'v' => some 11
  | '\\' => some 92
  | _ => none

/-- The class that a letter after a backslash stands for. -/
def category? : Char → Option Member
  | 'd' => some (.category false .digit)
  | 'D' => some (.category true .digit)
  | 's' => some (.category false .blank)
  | 'S' => some (.category true .blank)
  | 'w' => some (.category false .word)
  | 'W' => some (.category true .word)
  | _ => none

/-- The place that a letter after a backslash stands for. -/
def place? : Char → Option Place
  | 'A' => some .textStart
  | 'b' => some .boundary
  | 'B' => some .nonBoundary
  | 'Z' => some .textEnd
  | _ => none

/-- An escape so far. -/
def escapeText (c : Char) (digits : List Char) : String := String.ofList ('\\' :: c :: digits)

/-- Reads the code of an escape that gives its character by number, or by the name that it has in
    the database of characters. -/
def readCode? (c : Char) : Reader (Option Nat) := do
  let hex (count : Nat) : Reader Nat := do
    let digits ← takeUpTo isHexDigit count
    if digits.length < count then
      refuse (.incompleteEscape (escapeText c digits)) (digits.length + 2)
    else
      let code := digitsValue 16 digits
      if 0x10FFFF < code then refuse (.badEscape (escapeText c digits)) (digits.length + 2)
      else return code
  match c with
  | 'x' => return some (← hex 2)
  | 'u' => return some (← hex 4)
  | 'U' => return some (← hex 8)
  | 'N' => do
    if ← takeChar '\x7b' then
      let name ← takeName '\x7d' "character name"
      match namedCode? name with
      | some code => return some code
      | none => refuse (.undefinedCharacter (String.ofList name)) (name.length + 4)
    else refuse .missingBrace 0
  | _ => return none

/-- The code of an octal escape, which stays within a byte. -/
def octalCode (c : Char) (digits : List Char) : Reader Nat :=
  let code := digitsValue 8 (c :: digits)
  if 0o377 < code then refuse (.octalTooLarge (escapeText c digits)) (digits.length + 2)
  else return code

/-- Reads the rest of an escape inside a set. -/
def readMemberEscape (c : Char) : Reader Member := do
  match controlCode? c, category? c with
  | some code, _ => return .code code
  | none, some m => return m
  | none, none =>
    match ← readCode? c with
    | some code => return .code code
    | none =>
      if isOctalDigit c then
        let digits ← takeUpTo isOctalDigit 2
        return .code (← octalCode c digits)
      else if c.isDigit || isAsciiLetter c then refuse (.badEscape (escapeText c [])) 2
      else return .code c.toNat

/-- A reference to a group, written in the given number of characters. -/
def groupReference (group : Nat) (written : Nat) : Reader Expr := do
  let r ← get
  if group < r.groupCount then
    if (r.closedWidth? group).isNone then refuse .openGroupReference written
    else
      checkLookBehind group
      return .back group
  else refuse (.invalidReference group) (written - 1)

/-- Reads the rest of an escape that starts with a digit other than zero: three
    octal digits are a code, one or two digits a reference. -/
def readDigitEscape (c : Char) : Reader Expr := do
  match front (← get) with
  | some (.plain d) =>
    if d.isDigit then
      let _ ← take
      let third := match front (← get) with
        | some (.plain e) => if isOctalDigit c && isOctalDigit d && isOctalDigit e then some e else none
        | _ => none
      match third with
      | some e =>
        let _ ← take
        return .literal (← octalCode c [d, e])
      | none => groupReference (digitsValue 10 [c, d]) 3
    else groupReference (digitsValue 10 [c]) 2
  | _ => groupReference (digitsValue 10 [c]) 2

/-- Reads the rest of an escape outside of sets. -/
def readEscape (c : Char) : Reader Expr := do
  match place? c, category? c, controlCode? c with
  | some p, _, _ => return .at p
  | none, some m, _ => return .set false [m]
  | none, none, some code => return .literal code
  | none, none, none =>
    match ← readCode? c with
    | some code => return .literal code
    | none =>
      if c = '0' then
        let digits ← takeUpTo isOctalDigit 2
        return .literal (digitsValue 8 (c :: digits))
      else if c.isDigit then readDigitEscape c
      else if isAsciiLetter c then refuse (.badEscape (escapeText c [])) 2
      else return .literal c.toNat

/-! ## Sets -/

/-- Reads the rest of a member whose first token has been taken. -/
def readMember : Token → Reader Member
  | .plain c => return .code c.toNat
  | .escaped c => readMemberEscape c

/-- Reads the members of a set that starts at `start`, up to its end. A closing
    bracket in the first place is a member. -/
def readMembers (start : Nat) : (rounds : Nat) → (read : List Member) → Reader (List Member)
  | 0, _ => refuseAt .unterminatedSet start
  | rounds + 1, read => do
    match ← take with
    | none => refuseAt .unterminatedSet start
    | some this =>
      if this = .plain ']' && !read.isEmpty then return read
      else
        let first ← readMember this
        if ← takeChar '-' then
          match ← take with
          | none => refuseAt .unterminatedSet start
          | some that =>
            if that = .plain ']' then return read ++ [first, .code '-'.toNat]
            else
              let last ← readMember that
              let problem := Problem.badRange (String.ofList (this.chars ++ '-' :: that.chars))
              let written := this.chars.length + 1 + that.chars.length
              match first, last with
              | .code a, .code b =>
                if b < a then refuse problem written
                else readMembers start rounds (read ++ [.range a b])
              | _, _ => refuse problem written
        else readMembers start rounds (read ++ [first])

/-- Reads the rest of a set after its opening bracket. -/
def readSet : Reader Expr := do
  let start := (← get).offset - 1
  let negated ← takeChar '^'
  let members ← readMembers start ((← get).chars.length + 1) []
  return .set negated members

end

/-! ## Repetition -/

/-- Repeat counts stay below this one. -/
def repeatLimit : Nat := 4294967295

/-- The count that digits give, if there are any. -/
def repeatCount? (digits : List Char) : Reader (Option Nat) :=
  if digits.isEmpty then return none
  else if digitLimit < digits.length then fun _ => .error (.fault .repeatTooLong)
  else
    let n := digitsValue 10 digits
    if repeatLimit ≤ n then fun _ => .error (.fault .repeatTooLarge) else return some n

/-- Reads repeat counts after an opening brace; without a closing brace behind
    them nothing is taken and the brace stands for itself. -/
def readBounds : Reader (Option (Nat × Option Nat)) := do
  let before ← get
  if front before = some (.plain '\x7d') then return none
  else
    let low ← takeAll Char.isDigit
    let high ← if ← takeChar ',' then takeAll Char.isDigit else pure low
    if ← takeChar '\x7d' then
      let least ← repeatCount? low
      match ← repeatCount? high with
      | none => return some (least.getD 0, none)
      | some greatest =>
        if greatest < least.getD 0 then refuseAt .minimumAboveMaximum before.offset
        else return some (least.getD 0, some greatest)
    else
      set before
      return none

/-- Reads what a quantifier prefers: the mark behind it says so. -/
def readMode : Reader Mode := do
  if ← takeChar '?' then return .lazy
  else if ← takeChar '+' then return .possessive
  else return .greedy

/-- Repeats the last of the items read, which are in reverse order; the quantifier
    stands at `start`. -/
def repeatLast (start least : Nat) (greatest : Option Nat) (read : List Expr) :
    Reader (List Expr) := do
  match read with
  | [] => refuseAt .nothingToRepeat start
  | .at _ :: _ => refuseAt .nothingToRepeat start
  | .repeated _ _ _ _ :: _ => refuseAt .multipleRepeat start
  | item :: before =>
    return .repeated least greatest (← readMode) item :: before

/-! ## Modes -/

/-- The mode that a letter stands for. -/
def flag? : Token → Option Flags
  | .plain 'i' => some { Flags.none with ignoreCase := true }
  | .plain 'm' => some { Flags.none with multiline := true }
  | .plain 's' => some { Flags.none with dotAll := true }
  | .plain 'x' => some { Flags.none with verbose := true }
  | .plain 'a' => some { Flags.none with ascii := true }
  | .plain 'u' => some { Flags.none with unicode := true }
  | .plain 't' => some { Flags.none with template := true }
  | _ => none

/-- Whether a token is a letter that might have been a mode. -/
def isLetterToken : Token → Bool
  | .plain c => Text.isLetter c.toNat
  | .escaped _ => false

/-- Reads the modes that are turned on, up to the token that ends them. -/
def readFlagsOn : (rounds : Nat) → Token → Flags → Reader (Flags × Token)
  | 0, _, _ => refuse .missingFlagEnd 0
  | rounds + 1, letter, on => do
    if letter = .plain 'L' then refuse .localeFlag 0
    else
      let one := (flag? letter).getD Flags.none
      let on := on.union one
      if one.choosesAlphabet && on.ascii && on.unicode then refuse .alphabetFlags 0
      else
        match ← take with
        | none => refuse .missingFlagEnd 0
        | some t =>
          if t = .plain ')' ∨ t = .plain '-' ∨ t = .plain ':' then return (on, t)
          else if t = .plain 'L' ∨ (flag? t).isSome then readFlagsOn rounds t on
          else refuse (if isLetterToken t then .unknownFlag else .missingFlagEnd) t.chars.length

/-- Reads the modes that are turned off, up to the colon. -/
def readFlagsOff : (rounds : Nat) → Token → Flags → Reader Flags
  | 0, _, _ => refuse .missingColon 0
  | rounds + 1, letter, off => do
    let one := (flag? letter).getD Flags.none
    if letter = .plain 'L' ∨ one.choosesAlphabet then refuse .alphabetFlagOff 0
    else
      let off := off.union one
      match ← take with
      | none => refuse .missingColon 0
      | some t =>
        if t = .plain ':' then return off
        else if t = .plain 'L' ∨ (flag? t).isSome then readFlagsOff rounds t off
        else refuse (if isLetterToken t then .unknownFlag else .missingColon) t.chars.length

/-- Reads modes after their first letter, or after a minus: those of the whole
    pattern, which answer none, or what a group turns on and off. -/
def readFlags (first : Token) : Reader (Option (Flags × Flags)) := do
  let rounds := (← get).chars.length + 1
  let (on, ending) ←
    if first = .plain '-' then pure (Flags.none, first) else readFlagsOn rounds first Flags.none
  if ending = .plain ')' then
    modify fun r => { r with flags := r.flags.union on }
    return none
  else if on.template then refuse .globalFlagOn 1
  else
    let off ←
      if ending = .plain '-' then
        match ← take with
        | none => refuse .missingFlag 0
        | some t =>
          if t = .plain 'L' ∨ (flag? t).isSome then readFlagsOff rounds t Flags.none
          else refuse (if isLetterToken t then .unknownFlag else .missingFlag) t.chars.length
      else pure Flags.none
    if off.template then refuse .globalFlagOff 1
    else if on.without off != on then refuse .flagOnAndOff 1
    else return some (on, off)

/-! ## Items -/

/-- What a pair of parentheses is. -/
inductive Piece where
  | item (e : Expr)
  /-- a comment -/
  | comment
  /-- modes of the whole pattern -/
  | modes
deriving Repr

/-- Blanks that verbose patterns may hold anywhere. -/
def isVerboseBlank (c : Char) : Bool :=
  c == ' ' || c == '\t' || c == '\n' || c == '\r' || c == '\x0b' || c == '\x0c'

/-- Leaves out a comment of a verbose pattern, up to the end of its line. -/
def skipLine : (rounds : Nat) → Reader Unit
  | 0 => return ()
  | rounds + 1 => do
    match ← take with
    | none => return ()
    | some t => if t = .plain '\n' then return () else skipLine rounds

/-- Leaves out a comment group that starts at `start`. -/
def skipComment (start : Nat) : (rounds : Nat) → Reader Unit
  | 0 => refuseAt .unterminatedComment start
  | rounds + 1 => do
    match ← take with
    | none => refuseAt .unterminatedComment start
    | some t => if t = .plain ')' then return () else skipComment start rounds

/-- Takes the parenthesis that closes what starts at `start`. -/
def closeParenthesis (start : Nat) : Reader Unit := do
  if ← takeChar ')' then return () else refuseAt .unterminatedGroup start

/-- A reference to a named group, after its opening. -/
def readNamedReference : Reader Expr := do
  let name ← takeName ')' "group name"
  checkName name
  let r ← get
  match r.named? name with
  | none => refuse (.unknownGroupName (String.ofList name)) (name.length + 1)
  | some group =>
    if (r.closedWidth? group).isNone then refuse .openGroupReference (name.length + 1)
    else
      checkLookBehind group
      return .back group

/-- The greatest number of groups. -/
def groupLimit : Nat := 1073741823

/-- The group that a condition asks for, by name or number. -/
def readCondition : Reader Nat := do
  let name ← takeName ')' "group name"
  if Text.isIdentifier name then
    match (← get).named? name with
    | none => refuse (.unknownGroupName (String.ofList name)) (name.length + 1)
    | some group =>
      checkLookBehind group
      return group
  else
    match integer? name with
    | some (.ofNat group) =>
      if group = 0 then refuse .badGroupNumber (name.length + 1)
      else if groupLimit ≤ group then refuse (.invalidReference group) (name.length + 1)
      else
        modify fun r =>
          if r.asked.any (·.1 == group) then r
          else { r with asked := r.asked ++ [(group, r.offset - name.length - 1)] }
        checkLookBehind group
        return group
    | _ => refuse (.badGroupName (String.ofList name)) (name.length + 1)

/-- Several branches as one expression. -/
def alternatives : List Expr → Expr
  | [e] => e
  | branches => .alt branches

section
variable [CharacterNames]

mutual
/-- Reads alternatives. `nested` holds inside parentheses. -/
def readAlternatives : (rounds : Nat) → (verbose nested : Bool) → Reader Expr
  | 0, _, _ => refuse .unexpectedEnd 0
  | rounds + 1, verbose, nested => do
    return alternatives (← readBranches rounds verbose nested true)
/-- Reads the branches of alternatives; `first` holds for the first one. -/
def readBranches : (rounds : Nat) → (verbose nested first : Bool) → Reader (List Expr)
  | 0, _, _, _ => refuse .unexpectedEnd 0
  | rounds + 1, verbose, nested, first => do
    let branch ← readItems rounds verbose (!nested && first) []
    if ← takeChar '|' then
      let r ← get
      let verbose := if nested then verbose else r.flags.verbose
      return .seq branch :: (← readBranches rounds verbose nested false)
    else return [.seq branch]
/-- Reads items up to the end of a branch, after those already read, which are in
    reverse order. `atStart` holds where modes of the whole pattern may stand. -/
def readItems : (rounds : Nat) → (verbose atStart : Bool) → (read : List Expr) → Reader (List Expr)
  | 0, _, _, _ => refuse .unexpectedEnd 0
  | rounds + 1, verbose, atStart, read => do
    let ended := match front (← get) with
      | none | some (.plain '|') | some (.plain ')') => true
      | _ => false
    if ended then return read.reverse
    else
      match ← take with
      | none => return read.reverse
      | some (.escaped c) => do
        let e ← readEscape c
        readItems rounds verbose atStart (e :: read)
      | some (.plain c) =>
        let here := (← get).offset
        if verbose && isVerboseBlank c then readItems rounds verbose atStart read
        else if verbose && c == '#' then do
          skipLine (← get).chars.length
          readItems rounds verbose atStart read
        else
          match c with
          | '[' => do
            let e ← readSet
            readItems rounds verbose atStart (e :: read)
          | '.' => readItems rounds verbose atStart (.any :: read)
          | '^' => readItems rounds verbose atStart (.at .start :: read)
          | '$' => readItems rounds verbose atStart (.at .finish :: read)
          | '?' => do readItems rounds verbose atStart (← repeatLast (here - 1) 0 (some 1) read)
          | '*' => do readItems rounds verbose atStart (← repeatLast (here - 1) 0 none read)
          | '+' => do readItems rounds verbose atStart (← repeatLast (here - 1) 1 none read)
          | '\x7b' => do
            match ← readBounds with
            | none => readItems rounds verbose atStart (.literal c.toNat :: read)
            | some (least, greatest) =>
              readItems rounds verbose atStart (← repeatLast (here - 1) least greatest read)
          | '(' => do
            match ← readGroup rounds verbose (here - 1) with
            | .item e => readItems rounds verbose atStart (e :: read)
            | .comment => readItems rounds verbose atStart read
            | .modes =>
              if atStart && read.isEmpty then do
                readItems rounds (← get).flags.verbose atStart read
              else refuseAt .lateFlags (here - 1)
          | c => readItems rounds verbose atStart (.literal c.toNat :: read)
/-- Reads what follows an opening parenthesis at `start`. -/
def readGroup : (rounds : Nat) → (verbose : Bool) → (start : Nat) → Reader Piece
  | 0, _, _ => refuse .unexpectedEnd 0
  | rounds + 1, verbose, start => do
    /- a group that is kept under a number -/
    let captured (name : Option (List Char)) : Reader Piece := do
      let group ← openGroup name
      let body ← readAlternatives rounds verbose true
      closeParenthesis start
      closeGroup group (body.width (← get).widths)
      return .item (.capture group body)
    /- a group with modes of its own -/
    let modal (on off : Flags) : Reader Piece := do
      let body ← readAlternatives rounds ((verbose || on.verbose) && !off.verbose) true
      closeParenthesis start
      return .item (.modal on off body)
    if ← takeChar '?' then
      match ← take with
      | none => refuse .unexpectedEnd 0
      | some (.plain 'P') =>
        if ← takeChar '<' then
          let name ← takeName '>' "group name"
          checkName name
          captured (some name)
        else if ← takeChar '=' then return .item (← readNamedReference)
        else
          match ← take with
          | none => refuse .unexpectedEnd 0
          | some t =>
            refuse (.unknownExtension (String.ofList ('?' :: 'P' :: t.chars))) (t.chars.length + 2)
      | some (.plain ':') => modal Flags.none Flags.none
      | some (.plain '#') => do
        skipComment start ((← get).chars.length + 1)
        return .comment
      | some (.plain '=') => do
        let body ← readAlternatives rounds verbose true
        closeParenthesis start
        return .item (.look .ahead false body)
      | some (.plain '!') => do
        let body ← readAlternatives rounds verbose true
        closeParenthesis start
        return .item (.look .ahead true body)
      | some (.plain '<') => do
        match ← take with
        | none => refuse .unexpectedEnd 0
        | some t =>
          if t = .plain '=' ∨ t = .plain '!' then
            let before := (← get).behind
            modify fun r => { r with behind := some (before.getD r.groupCount) }
            let body ← readAlternatives rounds verbose true
            modify fun r => { r with behind := before }
            closeParenthesis start
            let width := body.width (← get).widths
            return .item (.look (.behind width.least width.greatest) (t = .plain '!') body)
          else
            refuse (.unknownExtension (String.ofList ('?' :: '<' :: t.chars))) (t.chars.length + 2)
      | some (.plain '(') => do
        let group ← readCondition
        let yes ← readItems rounds verbose false []
        let no ←
          if ← takeChar '|' then
            let no ← readItems rounds verbose false []
            if front (← get) = some (.plain '|') then refuse .thirdBranch 0 else pure no
          else pure []
        closeParenthesis start
        return .item (.choose group (.seq yes) (.seq no))
      | some (.plain '>') => do
        let body ← readAlternatives rounds verbose true
        closeParenthesis start
        return .item (.atomic body)
      | some t =>
        if t = .plain '-' ∨ t = .plain 'L' ∨ (flag? t).isSome then
          match ← readFlags t with
          | none => return .modes
          | some (on, off) => modal on off
        else refuse (.unknownExtension (String.ofList ('?' :: t.chars))) (t.chars.length + 1)
    else captured none
end

/-! ## Whole patterns -/

/-- The state before the first character. -/
def Reading.start (pattern : List Char) : Reading :=
  { chars := pattern, offset := 0, flags := Flags.none, groups := [], names := [],
    behind := none, asked := [] }

/-- Reads a whole pattern. -/
def readWhole (pattern : List Char) : Reader Expr := do
  let e ← readAlternatives (4 * pattern.length + 8) false false
  let r ← get
  if r.flags.ascii && r.flags.unicode then fun _ => .error (.fault .alphabetsConflict)
  else if (front r).isSome then refuse .unbalancedParenthesis 0
  else
    match r.asked.find? fun g => r.groupCount ≤ g.1 with
    | some (group, place) => refuseAt (.invalidReference group) place
    | none => return e

end

/-! ## Expressions that cannot be matched -/

/-- The name of a way of repeating, in the one message that shows it. -/
def Mode.name : Mode → String
  | .greedy => "MAX_REPEAT"
  | .lazy => "MIN_REPEAT"
  | .possessive => "POSSESSIVE_REPEAT"

/-- The greatest distance that a look-behind may go back. -/
def lookBehindLimit : Nat := 4294967295

mutual
/-- The first part of an expression that cannot be matched: a look-behind over a
    distance that is not fixed, or a repetition in template mode. -/
def Expr.problem? (template : Bool) : Expr → Option Problem
  | .literal _ | .any | .set _ _ | .at _ | .back _ => none
  | .capture _ body | .modal _ _ body | .atomic body | .look .ahead _ body => body.problem? template
  | .look (.behind least greatest) _ body =>
    if lookBehindLimit < least then some .longLookBehind
    else if least ≠ greatest then some .variableLookBehind
    else body.problem? template
  | .choose _ yes no => (yes.problem? template).or (no.problem? template)
  | .repeated _ _ mode body =>
    if template then some (.templateRepeat mode.name) else body.problem? template
  | .seq parts => Expr.problemIn? template parts
  | .alt branches => Expr.problemIn? template branches
/-- The first such part of several expressions. -/
def Expr.problemIn? (template : Bool) : List Expr → Option Problem
  | [] => none
  | e :: es => (e.problem? template).or (Expr.problemIn? template es)
end

/-- Reads a pattern: its expression and the modes of the whole. -/
def read [CharacterNames] (pattern : List Char) : Except Failure (Expr × Flags) :=
  if pattern = ['\\'] then .error (.refused ⟨.trailingBackslash, some 0⟩)
  else do
    let (e, r) ← (readWhole pattern).run (Reading.start pattern)
    match e.problem? r.flags.template with
    | some p => .error (.refused ⟨p, none⟩)
    | none => return (e, r.flags)

end SchemaGuard.Pattern
