/-
  SchemaGuard — schemas with flagged bounds.

  A bound that a number must not reach is written in two ways: as a number of its
  own (`exclusiveMinimum: 3`), or as a flag on the inclusive bound (`minimum: 3`
  with `exclusiveMinimum: true`). `Value.flagged` turns the first form into the
  second in a schema and in every schema inside it.

  * `contentOf` says at which keywords schemas stand;
  * `flagBounds` flags the two bounds of one node.
-/
import SchemaGuard.Value.Basic

namespace SchemaGuard

/-- What the value of a keyword may hold. -/
inductive Content where
  /-- names with schemas -/
  | namedSchemas
  /-- a schema, or a list of schemas -/
  | schemas
  /-- a schema, if it is an object -/
  | schemaObject
  /-- no schemas -/
  | data
deriving DecidableEq, Repr

/-- The keywords that hold names with schemas. -/
def namedSchemasKeywords : List String :=
  ["properties", "patternProperties", "definitions", "$defs", "dependencies"]

/-- The keywords that hold a schema or a list of schemas. -/
def schemasKeywords : List String :=
  ["allOf", "anyOf", "oneOf", "items", "prefixItems", "contains", "not", "if", "then", "else"]

/-- The keywords that hold a truth value or a schema. -/
def schemaObjectKeywords : List String := ["additionalItems", "additionalProperties", "propertyNames"]

/-- What a keyword holds. -/
def contentOf : Scalar → Content
  | .text keyword =>
    if keyword ∈ namedSchemasKeywords then .namedSchemas
    else if keyword ∈ schemasKeywords then .schemas
    else if keyword ∈ schemaObjectKeywords then .schemaObject
    else .data
  | _ => .data

namespace Fields

/-- Turns a numeric exclusive bound into a flag on the inclusive bound, which
    takes over the number. -/
def flagBound (node : Fields) (inclusive exclusive : String) : Fields :=
  match node.named? exclusive with
  | some (.number n) => (node.set inclusive (.number n)).set exclusive (.bool true)
  | _ => node

/-- Flags both bounds of a node, the upper one first. -/
def flagBounds (node : Fields) : Fields :=
  (node.flagBound "maximum" "exclusiveMaximum").flagBound "minimum" "exclusiveMinimum"

/-- A bound that is no number stays as it is. -/
theorem flagBound_of_not_number {node : Fields} {inclusive exclusive : String}
    (h : ∀ n, node.named? exclusive ≠ some (.number n)) :
    node.flagBound inclusive exclusive = node := by
  unfold flagBound
  split
  · next n hn => exact absurd hn (h n)
  · rfl

/-- After flagging, an exclusive bound is no number. -/
theorem named?_flagBound_ne_number (node : Fields) (inclusive exclusive : String) (n : Number) :
    (node.flagBound inclusive exclusive).named? exclusive ≠ some (.number n) := by
  unfold flagBound
  split
  · rw [named?_set]; simp
  · next h => exact h n

end Fields

namespace Value

mutual
/-- The schema, and every schema inside it, with flagged bounds. -/
def flagged : Value → Value
  | .list items => .list (flaggedItems items)
  | .object fields => .object (Fields.flagBounds (flaggedFields fields))
  | v => v
/-- Lists are treated element by element. -/
def flaggedItems : List Value → List Value
  | [] => []
  | item :: items => item.flagged :: flaggedItems items
/-- Only the values of keywords that hold schemas change. -/
def flaggedFields : List (Scalar × Value) → List (Scalar × Value)
  | [] => []
  | (key, v) :: fields => (key, flaggedPart (contentOf key) v) :: flaggedFields fields
/-- The value of a keyword, by what the keyword holds. -/
def flaggedPart : Content → Value → Value
  | .namedSchemas, .object members => .object (flaggedMembers members)
  | .schemas, .list items => .list (flaggedItems items)
  | .schemas, .object fields | .schemaObject, .object fields =>
    .object (Fields.flagBounds (flaggedFields fields))
  | _, v => v
/-- All values are schemas, whatever their names. -/
def flaggedMembers : List (Scalar × Value) → List (Scalar × Value)
  | [] => []
  | (name, v) :: members => (name, v.flagged) :: flaggedMembers members
end

theorem flaggedItems_eq_map (items : List Value) : flaggedItems items = items.map flagged := by
  induction items with
  | nil => rfl
  | cons item items ih => simp [flaggedItems, ih]

theorem flaggedMembers_eq_map (members : Fields) :
    flaggedMembers members = members.map fun m => (m.1, m.2.flagged) := by
  induction members with
  | nil => rfl
  | cons m members ih => simp [flaggedMembers, ih]

theorem flaggedFields_eq_map (fields : Fields) :
    flaggedFields fields = fields.map fun f => (f.1, flaggedPart (contentOf f.1) f.2) := by
  induction fields with
  | nil => rfl
  | cons f fields ih => simp [flaggedFields, ih]

end Value

end SchemaGuard
