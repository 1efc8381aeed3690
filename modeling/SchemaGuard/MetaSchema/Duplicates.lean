/-
  SchemaGuard — repeated elements, as meta-schemas count them.

  Elements are the same if they `agree`: numbers by value, truth values only with
  each other, sequences and objects part by part. To find repeats the elements are
  put in order and neighbours compared; only where some two of them have no order
  is every pair compared.
-/
import SchemaGuard.Value.Basic

namespace SchemaGuard

namespace Scalar

/-- Whether two scalars agree; a truth value agrees with no number. -/
def agrees : Scalar → Scalar → Bool
  | .number a, .number b => a.same b
  | a, b => a == b

/-- The number that a scalar counts as in an order; truth values are `0` and `1`. -/
def rank? : Scalar → Option Number
  | .number n => some n
  | .bool b => some (.int (if b then 1 else 0))
  | _ => none

/-- Whether two scalars have the same place in an order. -/
def equals (a b : Scalar) : Bool :=
  match a.rank?, b.rank? with
  | some m, some n => m.same n
  | _, _ => a == b

end Scalar

namespace Value

mutual
/-- Whether two values agree. -/
def agrees : Value → Value → Bool
  | .scalar a, .scalar b => a.agrees b
  | .list a, .list b | .list a, .tuple b | .tuple a, .list b | .tuple a, .tuple b => agreesItems a b
  | .object a, .object b => a.length == b.length && agreesFields a b
  | _, _ => false
/-- Whether two sequences agree element by element. -/
def agreesItems : List Value → List Value → Bool
  | [], [] => true
  | a :: as, b :: bs => a.agrees b && agreesItems as bs
  | _, _ => false
/-- Whether fields agree with those of another object under the same keys. -/
def agreesFields : List (Scalar × Value) → List (Scalar × Value) → Bool
  | [], _ => true
  | (key, v) :: fields, other =>
    (match List.lookup key other with
      | some w => v.agrees w
      | none => false) && agreesFields fields other
end

mutual
/-- Whether two values have the same place in an order; truth values count as numbers. -/
def equals : Value → Value → Bool
  | .scalar a, .scalar b => a.equals b
  | .list a, .list b | .tuple a, .tuple b => equalsItems a b
  | .object a, .object b => a.length == b.length && equalsFields a b
  | _, _ => false
/-- Whether two sequences are equal element by element. -/
def equalsItems : List Value → List Value → Bool
  | [], [] => true
  | a :: as, b :: bs => a.equals b && equalsItems as bs
  | _, _ => false
/-- Whether fields equal those of another object under the same keys. -/
def equalsFields : List (Scalar × Value) → List (Scalar × Value) → Bool
  | [], _ => true
  | (key, v) :: fields, other =>
    (match List.lookup key other with
      | some w => v.equals w
      | none => false) && equalsFields fields other
end

mutual
/-- Whether one value comes before another; none if they have no order. -/
def precedes? : Value → Value → Option Bool
  | .scalar (.text a), .scalar (.text b) => some (decide (a < b))
  | .scalar (.bytes a), .scalar (.bytes b) => some (decide (a < b))
  | .scalar a, .scalar b =>
    match a.rank?, b.rank? with
    | some m, some n => some (m.lt n)
    | _, _ => none
  | .list a, .list b | .tuple a, .tuple b => precedesItems? a b
  | _, _ => none
/-- Order of sequences: by the first elements that differ, then by length. -/
def precedesItems? : List Value → List Value → Option Bool
  | a :: as, b :: bs => if a.equals b then precedesItems? as bs else a.precedes? b
  | [], b => some (!b.isEmpty)
  | _ :: _, [] => some false
end

/-- Order of elements; truth values have none there. -/
def elementPrecedes? : Value → Value → Option Bool
  | .bool _, _ | _, .bool _ => none
  | a, b => a.precedes? b

/-- Puts an element behind those it does not precede; none if it has no order with one of them. -/
def insertOrdered? (x : Value) : List Value → Option (List Value)
  | [] => some [x]
  | y :: ys => do
    if ← x.elementPrecedes? y then return x :: y :: ys
    else return y :: (← insertOrdered? x ys)

/-- Elements in order, if all that are compared have one. -/
def ordered? (items : List Value) : Option (List Value) :=
  items.foldlM (fun sorted x => insertOrdered? x sorted) []

/-- Whether some two neighbours agree. -/
def neighboursAgree : List Value → Bool
  | a :: b :: rest => a.agrees b || neighboursAgree (b :: rest)
  | _ => false

/-- Whether some two elements agree. -/
def someAgree : List Value → Bool
  | [] => false
  | a :: rest => rest.any a.agrees || someAgree rest

/-- Whether an element is repeated. A NaN, which has no place in an order, is put behind the
    elements before it; a library that sorts in another way may compare other neighbours then. -/
def hasRepeats (items : List Value) : Bool :=
  match ordered? items with
  | some sorted => neighboursAgree sorted
  | none => someAgree items

end Value

end SchemaGuard
