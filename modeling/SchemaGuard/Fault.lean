/-
  SchemaGuard — faults: data of a kind that an operation cannot take.

  A fault is not a finding about a value or a schema. It arises where a document
  that was not checked beforehand is used for something its kind does not allow,
  such as a length bound that is no number. `Fault.kind` sorts the faults by
  what was wrong with the datum.
-/
import SchemaGuard.Value.Basic

namespace SchemaGuard

/-- The ways in which a datum can be unfit for an operation. -/
inductive FaultKind where
  /-- its type does not support the operation -/
  | wrongType
  /-- its type lacks the operation altogether -/
  | missingOperation
  /-- it is too large -/
  | overflow
  /-- its type fits, its content does not -/
  | badContent
deriving DecidableEq, Repr

/-- A use of a datum that its kind does not allow. -/
inductive Fault where
  /-- a length or item bound that has no order with numbers -/
  | boundNotNumber
  /-- a pattern that is neither a text nor a sequence of texts -/
  | patternNotText
  /-- a repeat count of a pattern beyond the largest one -/
  | repeatTooLarge
  /-- a repeat count of a pattern with more digits than numbers are read from -/
  | repeatTooLong
  /-- a pattern that asks for ASCII and for Unicode classes at once -/
  | alphabetsConflict
  /-- required names that do not form a set -/
  | requiredNotSet
  /-- properties that are not an object -/
  | propertiesNotObject
  /-- a property name that is not a text -/
  | nameNotText (key : Scalar)
  /-- an integer too large for a double -/
  | integerTooLarge
  /-- a dialect identifier that is neither a text nor vacant -/
  | dialectNotText
  /-- a dialect identifier that is a list or an object -/
  | dialectNotScalar
  /-- a dialect identifier whose host part is malformed, or one of bytes beyond ASCII -/
  | dialectMalformed
  /-- an implementation's settings without named entries -/
  | configWithoutNames
  /-- an implementation's settings that are no sequence of entries -/
  | configNotEntries
  /-- an entry of an implementation's settings that is no pair -/
  | configNotPairs
  /-- a closedness mode that is not a text -/
  | modeNotText
  /-- settings that are not an object -/
  | settingsNotObject
  /-- a value or key that has no JSON text -/
  | notWritable
  /-- a date that the calendar does not have -/
  | impossibleDate
  /-- a number without digits behind the mark of its base -/
  | numberWithoutDigits
  /-- a path with a character that no path may contain -/
  | impossiblePath
deriving DecidableEq, Repr

/-- What was wrong with the datum. -/
def Fault.kind : Fault → FaultKind
  | boundNotNumber | patternNotText | requiredNotSet | dialectNotScalar | configNotEntries
  | notWritable => .wrongType
  | nameNotText (.bytes _) | nameNotText (.date _) | nameNotText (.moment _) => .wrongType
  | nameNotText _ | propertiesNotObject | dialectNotText | configWithoutNames | modeNotText
  | settingsNotObject => .missingOperation
  | repeatTooLarge | integerTooLarge => .overflow
  | repeatTooLong | alphabetsConflict | configNotPairs | dialectMalformed | impossibleDate
  | numberWithoutDigits | impossiblePath => .badContent

end SchemaGuard
