/-
  SchemaGuard — what validators find wrong with a value.

  An `Issue` names the schema node that rejected the value, the place in the
  instance, and the `Finding`; the issue of a union also holds the issues of all
  its branches.
-/
import SchemaGuard.Pointer
import SchemaGuard.Value.Display

namespace SchemaGuard

/-- A reason for which a schema node rejects a value. -/
inductive Finding where
  /-- the schema `false` admits nothing -/
  | nothingAllowed
  /-- another value than the expected one -/
  | notExpected (expected : Value)
  /-- none of the texts to choose from -/
  | notAnOption (options : List String) (received : Value)
  /-- rejected by every alternative -/
  | noAlternative (count : Nat)
  /-- a value of another type -/
  | wrongKind (expected actual : String)
  | tooShort (limit : Value)
  | tooLong (limit : Value)
  | patternMismatch (source : Value)
  | notDateTime
  /-- a number with a fraction where an integer is expected -/
  | fractional
  | belowMinimum (limit : Number)
  | notAboveMinimum (limit : Number)
  | aboveMaximum (limit : Number)
  | notBelowMaximum (limit : Number)
  | tooFewItems (limit : Value)
  | tooManyItems (limit : Value)
  /-- an item that occurs earlier in the list -/
  | repeatedItem
  /-- a required property that is not there -/
  | missing
  /-- properties that a strict object does not declare -/
  | unknownKeys (keys : List Scalar)
deriving DecidableEq, Repr

/-- The message of a finding. -/
def Finding.message : Finding → String
  | nothingAllowed => "No value is allowed here"
  | notExpected expected => "Invalid literal value, expected " ++ expected.render
  | notAnOption options received =>
    "Invalid enum value. Expected " ++ " | ".intercalate (options.map Text.quoted) ++
      ", received " ++ received.render
  | noAlternative count => "Value did not match any of " ++ toString count ++ " alternatives"
  | wrongKind expected actual => "Expected " ++ expected ++ ", received " ++ actual
  | tooShort limit => "String must contain at least " ++ limit.shown ++ " character(s)"
  | tooLong limit => "String must contain at most " ++ limit.shown ++ " character(s)"
  | patternMismatch source => "String does not match pattern " ++ source.quoted
  | notDateTime => "Invalid date-time"
  | fractional => "Expected integer, received float"
  | belowMinimum limit => "Number must be greater than or equal to " ++ limit.text
  | notAboveMinimum limit => "Number must be greater than " ++ limit.text
  | aboveMaximum limit => "Number must be less than or equal to " ++ limit.text
  | notBelowMaximum limit => "Number must be less than " ++ limit.text
  | tooFewItems limit => "Array must contain at least " ++ limit.shown ++ " element(s)"
  | tooManyItems limit => "Array must contain at most " ++ limit.shown ++ " element(s)"
  | repeatedItem => "Items must be unique"
  | missing => "Required"
  | unknownKeys keys =>
    "Unrecognized key(s) in object: " ++ ", ".intercalate (keys.map Scalar.quoted)

/-- A finding of the schema node at `pointer` about the part of the instance at `path`. -/
inductive Issue where
  | mk (pointer : String) (path : Path) (finding : Finding) (causes : List Issue)
deriving Repr

namespace Issue

def pointer : Issue → String
  | mk p _ _ _ => p

def path : Issue → Path
  | mk _ p _ _ => p

def finding : Issue → Finding
  | mk _ _ f _ => f

/-- The issues of all branches of a failed union, in branch order. -/
def causes : Issue → List Issue
  | mk _ _ _ cs => cs

/-- The message of an issue. -/
def message (i : Issue) : String := i.finding.message

/-- An issue in one line: the place in the instance and the message. -/
def line (i : Issue) : String :=
  (if i.path.text.isEmpty then "/" else i.path.text) ++ ": " ++ i.message

/-- The text of a rejection: all issues in one line. -/
def summary (issues : List Issue) : String :=
  if issues.isEmpty then "Invalid value" else "; ".intercalate (issues.map line)

mutual
/-- An issue as data, with the text of its path. -/
def toValue : Issue → Value
  | mk pointer path finding causes =>
    let base : Fields := [(.text "pointer", .text pointer), (.text "path", .text path.text),
      (.text "message", .text finding.message)]
    match causes with
    | [] => .object base
    | causes => .object (base ++ [(.text "causes", .list (toValues causes))])
/-- Issues as data. -/
def toValues : List Issue → List Value
  | [] => []
  | i :: is => i.toValue :: toValues is
end

end Issue

end SchemaGuard
