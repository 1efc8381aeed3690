/-
  SchemaGuard — the decimal text of a double.

  A finite double is written with the fewest significant digits that still read
  back as the same double, and among those with the digits nearest to its exact
  value (`shortest`).  Powers of ten from `10^-4` up to below `10^16` are
  written positionally, the others with an exponent (`layout`).
-/
import SchemaGuard.Number.Double

namespace SchemaGuard.Double

/-! ## Shortest digits -/

/-- `digits · 10^exponent`. -/
structure DecimalDigits where
  digits : Nat
  exponent : Int
deriving Repr

/-- The largest `e` with `10^e ≤ m · 2^p`, for `m > 0`. -/
def decimalExponent (m : Nat) (p : Int) : Int :=
  let reaches (e : Int) : Bool :=
    Nat.pow 10 e.toNat * Nat.pow 2 (-p).toNat ≤ m * Nat.pow 2 p.toNat * Nat.pow 10 (-e).toNat
  let estimate := ((m.log2 + p) * 30103).fdiv 100000
  if reaches (estimate + 1) then estimate + 1
  else if reaches estimate then estimate
  else estimate - 1

/-- The decimal with `count` digits that reads back as `m · 2^p`, if there is
    one: the nearer of the two neighbours of the exact value on the grid of
    `count` digits that lie in the interval of numbers rounding to the double.
    The interval's ends belong to it when `m` is even. All quantities are
    counted in quarters of the last binary place. -/
def decimalOfLength (m : Nat) (p e : Int) (count : Nat) : Option DecimalDigits :=
  let k : Int := e - count + 1
  let below := if m = fractions ∧ -1074 < p then 4 * m - 1 else 4 * m - 2
  let unit := Nat.pow 2 (p - 2).toNat * Nat.pow 10 (-k).toNat
  let step := Nat.pow 2 (2 - p).toNat * Nat.pow 10 k.toNat
  let inside (d : Nat) : Bool :=
    if m % 2 = 0 then below * unit ≤ d * step && d * step ≤ (4 * m + 2) * unit
    else below * unit < d * step && d * step < (4 * m + 2) * unit
  let floor := 4 * m * unit / step
  let rest := 4 * m * unit % step
  match inside floor, inside (floor + 1) with
  | true, false => some ⟨floor, k⟩
  | false, true => some ⟨floor + 1, k⟩
  | false, false => none
  | true, true =>
    match Ord.compare (2 * rest) step with
    | .lt => some ⟨floor, k⟩
    | .gt => some ⟨floor + 1, k⟩
    | .eq => some ⟨floor + floor % 2, k⟩

/-- The shortest decimal that reads back as `m · 2^p`; seventeen digits always do. -/
def shortest (m : Nat) (p : Int) : DecimalDigits :=
  let e := decimalExponent m p
  ((List.range 17).findSome? fun i => decimalOfLength m p e (i + 1)).getD ⟨m, p⟩

/-! ## Layout -/

/-- The digits without their trailing zeros. -/
def significantDigits (digits : Nat) : List Char :=
  ((Nat.toDigits 10 digits).reverse.dropWhile (· == '0')).reverse

/-- The exponent of scientific notation: a sign and at least two digits. -/
def exponentText (e : Int) : List Char :=
  let digits := Nat.toDigits 10 e.natAbs
  (if e < 0 then '-' else '+') :: (if digits.length < 2 then '0' :: digits else digits)

/-- Writes `0.ds · 10^point`: positionally, always with a fractional part, when
    the leading digit stands for `10^-4` to `10^15`, else in scientific notation. -/
def layout (ds : List Char) (point : Int) : List Char :=
  if -4 < point ∧ point ≤ 16 then
    if point ≤ 0 then '0' :: '.' :: (List.replicate (-point).toNat '0' ++ ds)
    else
      let whole := ds.take point.toNat ++ List.replicate (point.toNat - ds.length) '0'
      let fraction := ds.drop point.toNat
      whole ++ '.' :: (if fraction.isEmpty then ['0'] else fraction)
  else
    let mantissa := match ds with
      | [] => []
      | [d] => [d]
      | d :: rest => d :: '.' :: rest
    mantissa ++ 'e' :: exponentText (point - 1)

/-- The digits of a finite double without its sign. -/
def magnitudeText (m : Nat) (p : Int) : List Char :=
  if m = 0 then ['0', '.', '0']
  else
    let d := shortest m p
    layout (significantDigits d.digits) ((Nat.toDigits 10 d.digits).length + d.exponent)

/-- The text of a double as messages show it. -/
def text : Double → String
  | .finite negative e f =>
    String.ofList ((if negative then ['-'] else []) ++ magnitudeText (significand e f) (power e))
  | .infinite negative => if negative then "-inf" else "inf"
  | .nan _ => "nan"

end SchemaGuard.Double
