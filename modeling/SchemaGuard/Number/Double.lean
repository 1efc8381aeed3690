/-
  SchemaGuard — binary64 numbers as plain data.

  A `Double` is given by the three fields of its 64-bit layout, so that two
  finite doubles are equal exactly when their fields are, and every question
  about them (order, wholeness, nearest double of a ratio) is answered in exact
  arithmetic on `Nat` and `Int`.

  * `significand` and `power` read a finite double as `±m · 2^p`;
  * `Scaled.compare` orders two numbers `m · 2^p` exactly;
  * `ofRatio` is the double nearest to a ratio, ties going to the even
    neighbour, and `ofDecimal` the one nearest to `d · 10^k`;
  * `toInt?` is the integer that a whole double denotes.
-/

namespace SchemaGuard

/-- A binary64 number. A NaN carries a label: two NaNs count as the same datum
    exactly when their labels agree, although no NaN is equal to a number. -/
inductive Double where
  /-- `±m · 2^p`, by its exponent field and its fraction field -/
  | finite (negative : Bool) (exponent : Fin 2047) (fraction : Fin 4503599627370496)
  /-- `inf` or `-inf` -/
  | infinite (negative : Bool)
  /-- not a number -/
  | nan (label : Nat)
deriving DecidableEq, Repr, Inhabited

/-! ## Exact dyadic numbers -/

/-- The number `significand · 2^power`. -/
structure Scaled where
  significand : Int
  power : Int
deriving DecidableEq, Repr

namespace Scaled

/-- The number of units that a scaled number has when the unit is a smaller power. -/
def countAt (s : Scaled) (low : Int) : Int := s.significand * Int.pow 2 (s.power - low).toNat

/-- Exact order: both numbers are brought to their smaller power. -/
def compare (a b : Scaled) : Ordering :=
  Ord.compare (a.countAt (min a.power b.power)) (b.countAt (min a.power b.power))

/-- The integer that a scaled number denotes, if it denotes one. -/
def toInt? (s : Scaled) : Option Int :=
  if 0 ≤ s.power then some (s.significand * Int.pow 2 s.power.toNat)
  else if s.significand % Int.pow 2 (-s.power).toNat = 0 then
    some (s.significand / Int.pow 2 (-s.power).toNat)
  else none

end Scaled

/-! ## Rounding a ratio -/

/-- The quotient rounded to the nearest integer, a half going to the even one. -/
def roundHalfEven (num den : Nat) : Nat :=
  let quotient := num / den
  match Ord.compare (2 * (num % den)) den with
  | .lt => quotient
  | .gt => quotient + 1
  | .eq => quotient + quotient % 2

namespace Double

/-- The number of fractions that share an exponent: `2^52`. -/
abbrev fractions : Nat := 4503599627370496

/-- Zero, with its sign. -/
def zero (negative : Bool) : Double := .finite negative 0 0

/-- The significand of a finite double: subnormal ones have no hidden bit. -/
def significand (exponent : Fin 2047) (fraction : Fin fractions) : Nat :=
  if exponent.val = 0 then fraction.val else fractions + fraction.val

/-- The power of two that a finite double's significand is scaled by. -/
def power (exponent : Fin 2047) : Int := (max exponent.val 1 : Nat) - 1075

/-- A finite double as an exact number. -/
def scaled? : Double → Option Scaled
  | .finite negative e f =>
    some ⟨if negative then -(significand e f : Int) else significand e f, power e⟩
  | _ => none

/-- The integer that a whole double denotes; fractions, infinities and NaNs have none. -/
def toInt? (d : Double) : Option Int := d.scaled?.bind Scaled.toInt?

/-- The double `±m · 2^p` for `m < 2^53` and `-1074 ≤ p`, where `m < 2^52` only
    if `p = -1074`; beyond the largest exponent it is infinite. -/
def assemble (negative : Bool) (m : Nat) (p : Int) : Double :=
  let exponent := if m < fractions then 0 else (p + 1075).toNat
  if h : exponent < 2047 then
    .finite negative ⟨exponent, h⟩ ⟨m % fractions, Nat.mod_lt _ (by decide)⟩
  else .infinite negative

/-- `num / (den · 2^p)` rounded to the nearest integer. -/
def roundScaled (num den : Nat) (p : Int) : Nat :=
  if 0 ≤ p then roundHalfEven num (den * Nat.pow 2 p.toNat)
  else roundHalfEven (num * Nat.pow 2 (-p).toNat) den

/-- The power at which `num / den` has a significand of 53 bits, if the number
    is large enough to have one, else the least power. -/
def fittingPower (num den : Nat) : Int :=
  let estimate : Int := (num.log2 : Int) - den.log2 - 52
  let tooLarge : Bool :=
    if 0 ≤ estimate then num < fractions * (den * Nat.pow 2 estimate.toNat)
    else num * Nat.pow 2 (-estimate).toNat < fractions * den
  max (if tooLarge then estimate - 1 else estimate) (-1074)

/-- The double nearest to `±num / den`, a tie going to the even neighbour. -/
def ofRatio (negative : Bool) (num den : Nat) : Double :=
  if num = 0 then zero negative
  else
    let p := fittingPower num den
    let m := roundScaled num den p
    if m = 2 * fractions then assemble negative fractions (p + 1) else assemble negative m p

/-- The double nearest to `±digits · 10^exponent`. Exponents far outside the
    range are answered without raising ten to them. -/
def ofDecimal (negative : Bool) (digits : Nat) (exponent : Int) : Double :=
  if digits = 0 then zero negative
  else if 400 < exponent then .infinite negative
  else if exponent < -400 ∧ (digits.log2 : Int) < 3 * (-exponent - 400) then zero negative
  else if 0 ≤ exponent then ofRatio negative (digits * Nat.pow 10 exponent.toNat) 1
  else ofRatio negative digits (Nat.pow 10 (-exponent).toNat)

end Double

/-- Whether the double nearest to an integer is finite: half a unit above the
    largest finite double and beyond there is none. -/
def withinDoubleRange (n : Int) : Bool := n.natAbs < Nat.pow 2 1024 - Nat.pow 2 970

end SchemaGuard
