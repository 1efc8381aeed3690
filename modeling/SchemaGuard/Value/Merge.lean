/-
  SchemaGuard — joining two cleaned copies of one value.

  Two validators that accept a value may each keep other fields of it. `merge`
  keeps what either keeps: fields of the left copy first, then those that only
  the right copy has; lists of one length are merged element by element.
-/
import SchemaGuard.Value.Basic

namespace SchemaGuard

namespace Value

mutual
/-- What either of two copies of a value keeps. -/
def merge : (left right : Value) → Value
  | .object left, .object right => .object (mergeFields left right)
  | .list left, .list right =>
    if left.length = right.length then .list (mergeItems left right) else .list left
  | left, _ => left
/-- Merges two lists element by element. -/
def mergeItems : (left right : List Value) → List Value
  | l :: left, r :: right => merge l r :: mergeItems left right
  | _, _ => []
/-- Merges the fields of the right copy into those of the left one. -/
def mergeFields : (left right : List (Scalar × Value)) → List (Scalar × Value)
  | left, [] => left
  | left, (key, r) :: right =>
    match List.lookup key left with
    | some l => mergeFields (Fields.put left key (merge l r)) right
    | none => mergeFields (left ++ [(key, r)]) right
end

end Value

end SchemaGuard
