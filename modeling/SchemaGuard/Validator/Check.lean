/-
  SchemaGuard — running validators.

  `Validator.check` runs a validator on the part of an instance at a path and
  gives the cleaned part together with every independent issue. A node that finds
  a value of the wrong type reports only that; otherwise it goes on after an
  issue. `Validator.run` is the check of a whole instance: the cleaned value if
  there are no issues.

  A check ends with a `Fault` only where a bound is not a number or where a
  number is too large for a double.
-/
import SchemaGuard.Issue
import SchemaGuard.Timestamp
import SchemaGuard.Validator.Basic
import SchemaGuard.Value.Equality
import SchemaGuard.Value.Merge

namespace SchemaGuard

/-! ## Numbers as a validator sees them -/

/-- Whether a value is a finite number; truth values are none. -/
def isFiniteNumber : Value → Except Fault Bool
  | .int n => if withinDoubleRange n then .ok true else .error .integerTooLarge
  | .double (.finite _ _ _) => .ok true
  | _ => .ok false

/-- The number that a bound stands for; truth values stand for `0` and `1`. -/
def bound? : Value → Option Number
  | .number n => some n
  | .bool b => some (.int (if b then 1 else 0))
  | _ => none

/-- The finding of a bound that holds, given whether it is violated. -/
def findingIf (violated : Bool) (finding : Finding) : List Finding :=
  if violated then [finding] else []

/-- The findings of a bound on a size, if there is a bound. -/
def sizeFindings (limit : Option Value) (violates : Number → Bool) (finding : Value → Finding) :
    Except Fault (List Finding) :=
  match limit with
  | none => .ok []
  | some v =>
    match bound? v with
    | none => .error .boundNotNumber
    | some n => .ok (findingIf (violates n) (finding v))

/-! ## Rules of single nodes -/

/-- What is wrong with a text. -/
def TextRules.findings (rules : TextRules) (s : String) : Except Fault (List Finding) := do
  let length := Number.int s.length
  let short ← sizeFindings rules.minLength (length.lt ·) .tooShort
  let long ← sizeFindings rules.maxLength (·.lt length) .tooLong
  let mismatch := match rules.pattern with
    | none => []
    | some p => findingIf (!p.search s) (.patternMismatch (rules.patternSource.getD .null))
  let format := findingIf (rules.dateTime && !Timestamp.isDateTime s) .notDateTime
  return short ++ long ++ mismatch ++ format

/-- The finding of a numeric bound, if there is one and it is violated. -/
def limitFindings (limit : Option Number) (violates : Number → Bool) (finding : Number → Finding) :
    List Finding :=
  match limit with
  | none => []
  | some n => findingIf (violates n) (finding n)

/-- What is wrong with a finite number. -/
def NumberRules.findings (rules : NumberRules) (n : Number) : List Finding :=
  findingIf (rules.integer && !n.isWhole) .fractional ++
    limitFindings rules.minimum (n.lt ·) .belowMinimum ++
    limitFindings rules.exclusiveMinimum (n.le ·) .notAboveMinimum ++
    limitFindings rules.maximum (·.lt n) .aboveMaximum ++
    limitFindings rules.exclusiveMaximum (·.le n) .notBelowMaximum

/-- What is wrong with the number of a list's elements. -/
def ListRules.findings (rules : ListRules) (count : Nat) : Except Fault (List Finding) := do
  let few ← sizeFindings rules.minItems ((Number.int count).lt ·) .tooFewItems
  let many ← sizeFindings rules.maxItems (·.lt (Number.int count)) .tooManyItems
  return few ++ many

/-- The positions of elements that are the same data as an earlier one; `seen`
    holds the canonical forms before position `index`. -/
def repeatsFrom (seen : List Value) (index : Nat) : List Value → List Nat
  | [] => []
  | item :: items =>
    let key := item.canonical
    if seen.contains key then index :: repeatsFrom seen (index + 1) items
    else repeatsFrom (key :: seen) (index + 1) items

/-- The positions of elements that are the same data as an earlier one. -/
def repeats (items : List Value) : List Nat := repeatsFrom [] 0 items

/-- The fields of an object that are not declared. -/
def undeclared (properties : List (String × Validator)) (fields : Fields) : Fields :=
  fields.filter fun f => !properties.any fun p => f.1 == .text p.1

/-! ## Trees -/

/-- A cleaned value together with the issues found. -/
abbrev Outcome := Except Fault (Value × List Issue)

namespace Validator

/-- Rejects a value for one reason. -/
def reject (value : Value) (pointer : String) (path : Path) (finding : Finding) : Outcome :=
  .ok (value, [.mk pointer path finding []])

/-- Keeps a value, with the findings of one node. -/
def report (value : Value) (pointer : String) (path : Path) (findings : List Finding) : Outcome :=
  .ok (value, findings.map fun f => .mk pointer path f [])

mutual
/-- The cleaned part of an instance at a path, and what is wrong with the part. -/
def check : Validator → Value → Path → Outcome
  | .any _, v, _ => .ok (v, [])
  | .never p, v, path => reject v p path .nothingAllowed
  | .literal p expected, v, path =>
    if v.sameData expected then .ok (v, []) else reject v p path (.notExpected expected)
  | .options p choices, v, path =>
    match v.text? with
    | some s =>
      if choices.contains s then .ok (v, []) else reject v p path (.notAnOption choices v)
    | none => reject v p path (.notAnOption choices v)
  | .union p branches, v, path => do
    match ← checkBranches branches v path with
    | .inl output => return (output, [])
    | .inr causes => return (v, [.mk p path (.noAlternative branches.length) causes])
  | .both _ left right, v, path => do
    let (leftOutput, leftIssues) ← left.check v path
    let (rightOutput, rightIssues) ← right.check v path
    let issues := leftIssues ++ rightIssues
    if issues.isEmpty then return (leftOutput.merge rightOutput, []) else return (v, issues)
  | .kind p expected, v, path =>
    if v.kind = expected then .ok (v, []) else reject v p path (.wrongKind expected v.kind)
  | .text p rules, v, path =>
    match v.text? with
    | none => reject v p path (.wrongKind "string" v.kind)
    | some s => do report v p path (← rules.findings s)
  | .number p rules, v, path => do
    let expected := if rules.integer then "integer" else "number"
    match ← isFiniteNumber v, v.number? with
    | true, some n => report v p path (rules.findings n)
    | _, _ => reject v p path (.wrongKind expected v.kind)
  | .list p items rules, v, path =>
    match v.elements? with
    | none => reject v p path (.wrongKind "array" v.kind)
    | some elements => do
      let checked ← elements.zipIdx.mapM fun e => items.check e.1 (path ++ [.index e.2])
      let own ← rules.findings elements.length
      let repeated := if rules.uniqueItems then repeats elements else []
      return (.list (checked.map (·.1)),
        checked.flatMap (·.2) ++ own.map (fun f => .mk p path f []) ++
          repeated.map fun i => .mk p (path ++ [.index i]) .repeatedItem [])
  | .object p properties required closedness, v, path =>
    match v with
    | .object fields => do
      let (output, issues) ← checkProperties p required properties fields path
      let extra := undeclared properties fields
      match closedness with
      | .strict =>
        if extra.isEmpty then return (.object output, issues)
        else
          return (.object output, issues ++ [.mk p path (.unknownKeys extra.keys) []])
      | .passthrough => return (.object (output ++ extra), issues)
      | .strip => return (.object output, issues)
    | _ => reject v p path (.wrongKind "object" v.kind)
/-- The output of the first branch that accepts, or the issues of all branches. -/
def checkBranches : List Validator → Value → Path → Except Fault (Value ⊕ List Issue)
  | [], _, _ => .ok (.inr [])
  | branch :: branches, v, path => do
    let (output, issues) ← branch.check v path
    if issues.isEmpty then return .inl output
    else
      match ← checkBranches branches v path with
      | .inl output => return .inl output
      | .inr causes => return .inr (issues ++ causes)
/-- The cleaned fields of declared properties, in the order of the declarations. -/
def checkProperties (pointer : String) (required : List Value) :
    List (String × Validator) → Fields → Path → Except Fault (Fields × List Issue)
  | [], _, _ => .ok ([], [])
  | (name, validator) :: properties, fields, path =>
    match fields.named? name with
    | none => do
      let (output, issues) ← checkProperties pointer required properties fields path
      let own := if required.contains (.text name) then
        [Issue.mk pointer (path ++ [.key name]) .missing []] else []
      return (output, own ++ issues)
    | some v => do
      let (cleaned, own) ← validator.check v (path ++ [.key name])
      let (output, issues) ← checkProperties pointer required properties fields path
      return ((.text name, cleaned) :: output, own ++ issues)
end

/-- An intersection joins what both validators clean, or has the issues of both. -/
theorem check_both (p : String) (left right : Validator) (v : Value) (path : Path) :
    (both p left right).check v path = (do
      let (leftOutput, leftIssues) ← left.check v path
      let (rightOutput, rightIssues) ← right.check v path
      let issues := leftIssues ++ rightIssues
      if issues.isEmpty then return (leftOutput.merge rightOutput, []) else return (v, issues)) :=
  check.eq_def (.both p left right) v path

end Validator

/-! ## Whole instances -/

/-- The answer of a validator: the cleaned value, or the issues of a rejected one. -/
inductive Verdict where
  | accepted (output : Value)
  | rejected (issues : List Issue)
deriving Repr

/-- Runs a validator on an instance. -/
def Validator.run (validator : Validator) (v : Value) : Except Fault Verdict := do
  let (output, issues) ← validator.check v []
  return if issues.isEmpty then .accepted output else .rejected issues

end SchemaGuard
