/-
  SchemaGuard — the data that plain YAML scalars stand for.

  A plain scalar is null, a truth value, a number, a date or a moment if it is
  written like one, else a text. `resolve` tries the forms in this order. Numbers
  may hold underscores; integers may be binary (`0b`), octal (`0`), hexadecimal
  (`0x`) or in base 60 (`1:30`). A date that does not exist is a fault.
-/
import SchemaGuard.Fault
import SchemaGuard.Document.Yaml.Scalar

namespace SchemaGuard.Yaml

/-! ## Words -/

/-- The plain scalars that stand for null. -/
def nullWords : List String := ["", "~", "null", "Null", "NULL"]

/-- The plain scalars that stand for true. -/
def trueWords : List String :=
  ["yes", "Yes", "YES", "true", "True", "TRUE", "on", "On", "ON"]

/-- The plain scalars that stand for false. -/
def falseWords : List String :=
  ["no", "No", "NO", "false", "False", "FALSE", "off", "Off", "OFF"]

/-- The plain scalars that stand for infinity, without a sign. -/
def infinityWords : List String := [".inf", ".Inf", ".INF"]

/-- The plain scalars that stand for NaN. -/
def nanWords : List String := [".nan", ".NaN", ".NAN"]

/-! ## Digits -/

/-- Digits of a base without their underscores; none if there is anything else. -/
def digitsIn? (base : Nat) (cs : List Char) : Option (List Nat) :=
  (cs.filter (· != '_')).mapM fun c => (hexDigit? c).filter (· < base)

/-- The number that digits of a base denote. -/
def ofDigits (base : Nat) (digits : List Nat) : Nat := digits.foldl (fun n d => base * n + d) 0

/-- A sign, if there is one, and what follows. -/
def splitSign : List Char → Bool × List Char
  | '-' :: rest => (true, rest)
  | '+' :: rest => (false, rest)
  | rest => (false, rest)

/-- An integer with a sign. -/
def signed (negative : Bool) (n : Nat) : Int := if negative then -n else n

/-- The decimal number in front and what follows it; it begins with a digit and may
    hold underscores. -/
def decimalFront? (cs : List Char) : Option (Nat × List Char) :=
  if (cs.headD endChar).isDigit then
    let digits := cs.takeWhile fun c => c.isDigit || c == '_'
    (digitsIn? 10 digits).map fun ds => (ofDigits 10 ds, cs.drop digits.length)
  else none

/-- The parts of a number in base 60 behind its first one, each with a colon in
    front, and what follows them. -/
def sixtieths : List Char → List Nat × List Char
  | ':' :: a :: b :: rest =>
    if '0' ≤ a ∧ a ≤ '5' ∧ b.isDigit then
      let (parts, rest) := sixtieths rest
      ((10 * (a.toNat - 48) + (b.toNat - 48)) :: parts, rest)
    else if a.isDigit then
      let (parts, rest) := sixtieths (b :: rest)
      ((a.toNat - 48) :: parts, rest)
    else ([], ':' :: a :: b :: rest)
  | [':', a] => if a.isDigit then ([a.toNat - 48], []) else ([], [':', a])
  | rest => ([], rest)

/-! ## Numbers -/

/-- The exponent part of a double: it has a sign. -/
def exponent? : List Char → Option Int
  | [] => some 0
  | e :: sign :: digits =>
    if (e = 'e' ∨ e = 'E') ∧ (sign = '+' ∨ sign = '-') ∧ !digits.isEmpty ∧ digits.all Char.isDigit then
      (digitsIn? 10 digits).map fun ds => signed (sign = '-') (ofDigits 10 ds)
    else none
  | _ => none

/-- The double with some digits in front of the point, where `rest` stands behind it. -/
def pointed? (negative : Bool) (whole : Nat) (rest : List Char) (withExponent : Bool) : Option Double := do
  let fraction := rest.takeWhile fun c => c.isDigit || c == '_'
  let digits ← digitsIn? 10 fraction
  let rest := rest.drop fraction.length
  let exponent ← if withExponent then exponent? rest else if rest.isEmpty then some 0 else none
  return .ofDecimal negative (whole * Nat.pow 10 digits.length + ofDigits 10 digits) (exponent - digits.length)

/-- The double that a plain scalar stands for: it has a point. One without digits in
    front of the point has no sign. -/
def double? (cs : List Char) : Option Double :=
  let (negative, body) := splitSign cs
  if infinityWords.contains (String.ofList body) then some (.infinite negative)
  else if nanWords.contains (String.ofList cs) then some (.nan 1)
  else
    match cs with
    | '.' :: rest => if (rest.headD endChar).isDigit then pointed? false 0 rest true else none
    | _ =>
      match decimalFront? body with
      | some (whole, '.' :: rest) => pointed? negative whole rest true
      | some (whole, rest) =>
        match sixtieths rest with
        | (part :: parts, '.' :: rest) =>
          pointed? negative (ofDigits 60 (whole :: part :: parts)) rest false
        | _ => none
      | none => none

/-- The number that digits of a base denote; a mark of a base without digits behind
    it is a fault. -/
def basedInteger (negative : Bool) (base : Nat) (digits : List Nat) : Except Fault Int :=
  if digits.isEmpty then .error .numberWithoutDigits else .ok (signed negative (ofDigits base digits))

/-- The integer that a plain scalar stands for, also beyond the `digitLimit` up to which documents
    can hold integers. -/
def integer? (cs : List Char) : Option (Except Fault Int) :=
  let (negative, body) := splitSign cs
  match body with
  | '0' :: 'b' :: c :: digits => (digitsIn? 2 (c :: digits)).map (basedInteger negative 2)
  | '0' :: 'x' :: c :: digits => (digitsIn? 16 (c :: digits)).map (basedInteger negative 16)
  | '0' :: digits => (digitsIn? 8 digits).map fun ds => .ok (signed negative (ofDigits 8 ds))
  | _ =>
    match decimalFront? body with
    | some (n, []) => some (.ok (signed negative n))
    | some (n, rest) =>
      match sixtieths rest with
      | (part :: parts, []) => some (.ok (signed negative (ofDigits 60 (n :: part :: parts))))
      | _ => none
    | none => none

/-! ## Dates -/

/-- A number of `least` to `most` digits in front, and what follows it. -/
def digitsFront? (least most : Nat) (cs : List Char) : Option (Nat × List Char) :=
  let digits := (cs.take most).takeWhile Char.isDigit
  if least ≤ digits.length then (digitsIn? 10 digits).map fun ds => (ofDigits 10 ds, cs.drop digits.length)
  else none

/-- What follows a character in front. -/
def after? (c : Char) : List Char → Option (List Char)
  | d :: rest => if d = c then some rest else none
  | [] => none

/-- The year, month and day in front, the last two in at least `least` digits. -/
def dateFront? (least : Nat) (cs : List Char) : Option (Date × List Char) := do
  let (year, cs) ← digitsFront? 4 4 cs
  let (month, cs) ← digitsFront? least 2 (← after? '-' cs)
  let (day, cs) ← digitsFront? least 2 (← after? '-' cs)
  return (⟨year, month, day⟩, cs)

/-- The distance from UTC that a zone denotes; none where no zone is written. -/
def zone? (cs : List Char) : Option (Option Int) :=
  match cs.dropWhile isSpace with
  | [] => if cs.isEmpty then some none else none
  | ['Z'] => some (some 0)
  | sign :: rest =>
    if sign = '+' ∨ sign = '-' then do
      let (hours, rest) ← digitsFront? 1 2 rest
      let (minutes, rest) ← if rest.isEmpty then some (0, []) else digitsFront? 2 2 (← after? ':' rest)
      guard rest.isEmpty
      return some (signed (sign = '-') (60 * hours + minutes))
    else none

/-- What follows the separator between a date and a time of day: one letter, or spaces. -/
def afterSeparator? : List Char → Option (List Char)
  | 'T' :: rest | 't' :: rest => some rest
  | c :: rest => if isSpace c then some (rest.dropWhile isSpace) else none
  | [] => none

/-- The moment that a plain scalar is written as, be it one that does not exist. -/
def moment? (cs : List Char) : Option Moment := do
  let (date, cs) ← dateFront? 1 cs
  let (hour, cs) ← digitsFront? 1 2 (← afterSeparator? cs)
  let (minute, cs) ← digitsFront? 2 2 (← after? ':' cs)
  let (second, cs) ← digitsFront? 2 2 (← after? ':' cs)
  let fraction := match cs with
    | '.' :: rest => rest.takeWhile Char.isDigit
    | _ => []
  let rest := match cs with
    | '.' :: rest => rest.drop fraction.length
    | _ => cs
  let micros ← digitsIn? 10 (fraction.take 6)
  let zone ← zone? rest
  return ⟨date, hour, minute, second, ofDigits 10 micros * Nat.pow 10 (6 - micros.length), zone⟩

/-- The date or moment that a plain scalar stands for. -/
def calendar? (cs : List Char) : Option (Except Fault Scalar) :=
  match dateFront? 2 cs with
  | some (d, []) => some (if d.IsValid then .ok (.date d) else .error .impossibleDate)
  | _ => (moment? cs).map fun m => if m.IsValid then .ok (.moment m) else .error .impossibleDate

/-! ## All forms -/

/-- What a plain scalar stands for. -/
def resolve (text : String) : Except Fault Scalar :=
  if nullWords.contains text then .ok .null
  else if trueWords.contains text then .ok (.bool true)
  else if falseWords.contains text then .ok (.bool false)
  else
    let cs := text.toList
    match double? cs with
    | some d => .ok (.number (.double d))
    | none =>
      match integer? cs with
      | some n => return .number (.int (← n))
      | none => (calendar? cs).getD (.ok (.text text))

end SchemaGuard.Yaml
