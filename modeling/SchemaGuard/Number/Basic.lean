/-
  SchemaGuard — numbers: integers of any size and binary64 doubles.

  Integers and doubles are different data (`3` and `3.0`) of equal value, and
  are compared exactly, never through a conversion. A NaN is not comparable with
  anything (`compare?`). `normal` writes a whole double as an integer, so that
  numbers of equal value become equal data.
-/
import SchemaGuard.Number.Double

namespace SchemaGuard

/-- A number. -/
inductive Number where
  | int (n : Int)
  | double (d : Double)
deriving DecidableEq, Repr, Inhabited

/-- The greatest number of decimal digits from which integers are read, in patterns and in
    documents, and in which messages can show them. -/
def digitLimit : Nat := 4300

/-- A place on the number line with its two ends. -/
inductive Extent where
  | below
  | at (value : Scaled)
  | above
deriving DecidableEq, Repr

/-- Exact order of two places. -/
def Extent.compare : Extent → Extent → Ordering
  | .below, .below | .above, .above => .eq
  | .below, _ | _, .above => .lt
  | _, .below | .above, _ => .gt
  | .at a, .at b => Scaled.compare a b

namespace Number

/-- Where a number lies on the extended line; a NaN lies nowhere. -/
def extent? : Number → Option Extent
  | .int n => some (.at ⟨n, 0⟩)
  | .double (.finite negative e f) => (Double.finite negative e f).scaled?.map .at
  | .double (.infinite true) => some .below
  | .double (.infinite false) => some .above
  | .double (.nan _) => none

/-- Exact order of two numbers; `none` if one of them is a NaN. -/
def compare? (a b : Number) : Option Ordering :=
  match a.extent?, b.extent? with
  | some x, some y => some (x.compare y)
  | _, _ => none

/-- Whether one number is less than another; false with a NaN. -/
def lt (a b : Number) : Bool := a.compare? b == some .lt

/-- Whether one number is at most another; false with a NaN. -/
def le (a b : Number) : Bool := a.compare? b == some .lt || a.compare? b == some .eq

/-- A whole double written as an integer; every other number as it is. -/
def normal : Number → Number
  | .int n => .int n
  | .double d => match d.toInt? with
    | some n => .int n
    | none => .double d

@[simp] theorem normal_int (n : Int) : normal (.int n) = .int n := rfl

theorem normal_normal (n : Number) : n.normal.normal = n.normal := by
  cases n with
  | int n => rfl
  | double d =>
    cases h : d.toInt? with
    | some k => simp [normal, h]
    | none => simp [normal, h]

/-- Whether a number is whole. -/
def isWhole : Number → Bool
  | .int _ => true
  | .double d => d.toInt?.isSome

/-- Whether two numbers are the same datum up to value: equal in value, or NaNs
    with one label. -/
def same (a b : Number) : Bool := a.normal == b.normal

end Number

end SchemaGuard
