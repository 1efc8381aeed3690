/-
  SchemaGuard — equality of data whatever its form.

  `canonical` is one form for all values that are the same data: whole doubles
  become integers, tuples become lists, keys become texts, and the fields of an
  object are sorted. `sameData` compares canonical forms; so `1` and `1.0` are
  the same datum and `true` is neither, and the order of fields does not count.

  `settled` is a coarser form for members of sets, in which the truth values
  count as `0` and `1`.
-/
import SchemaGuard.Value.Display

namespace SchemaGuard

/-- Order of fields by key; equal keys, which only YAML's different scalars can
    show, are ordered by their values' texts. -/
def fieldLe (a b : Scalar × Value) : Bool :=
  a.1.shown < b.1.shown || (a.1.shown == b.1.shown && a.2.quoted ≤ b.2.quoted)

namespace Value

/-! ## Canonical form -/

mutual
/-- The one form of all values that are the same data. -/
def canonical : Value → Value
  | .scalar (.number n) => .number n.normal
  | .scalar s => .scalar s
  | .list items | .tuple items => .list (canonicalItems items)
  | .object fields => .object ((canonicalFields fields).mergeSort fieldLe)
/-- The canonical forms of items. -/
def canonicalItems : List Value → List Value
  | [] => []
  | item :: items => item.canonical :: canonicalItems items
/-- Fields with keys as texts and canonical values, not yet sorted. -/
def canonicalFields : List (Scalar × Value) → List (Scalar × Value)
  | [] => []
  | (key, v) :: fields => (.text key.shown, v.canonical) :: canonicalFields fields
end

theorem canonicalItems_eq_map (items : List Value) :
    canonicalItems items = items.map canonical := by
  induction items with
  | nil => rfl
  | cons item items ih => simp [canonicalItems, ih]

theorem canonicalFields_eq_map (fields : Fields) :
    canonicalFields fields = fields.map fun f => (.text f.1.shown, f.2.canonical) := by
  induction fields with
  | nil => rfl
  | cons f fields ih => simp [canonicalFields, ih]

/-- Whether two values are the same data. -/
def sameData (a b : Value) : Bool := a.canonical == b.canonical

@[simp] theorem sameData_iff (a b : Value) : a.sameData b = true ↔ a.canonical = b.canonical := by
  simp [sameData]

/-! ## Members of sets -/

mutual
/-- The form that decides membership in a set of names: truth values count as
    numbers, whole doubles as integers. Lists and objects are never members. -/
def settled? : Value → Option Value
  | .bool b => some (.int (if b then 1 else 0))
  | .number n => some (.number n.normal)
  | .scalar s => some (.scalar s)
  | .tuple items => (settledItems? items).map .tuple
  | .list _ | .object _ => none
/-- The set forms of items, if all of them have one. -/
def settledItems? : List Value → Option (List Value)
  | [] => some []
  | item :: items => do
    let first ← item.settled?
    let rest ← settledItems? items
    return first :: rest
end

/-- Keeps the first of the values that count as one member. -/
def distinct (items : List Value) : List Value :=
  items.foldl
    (fun kept item => if kept.any (fun k => k.settled? == item.settled?) then kept else kept ++ [item]) []

end Value

/-- Sets a field whose key counts as one with `key`: in its place if there is one,
    which keeps its own key, else at the end. -/
def Fields.assign : Fields → Scalar → Value → Fields
  | [], key, v => [(key, v)]
  | (k, old) :: rest, key, v =>
    if (Value.scalar k).settled? = (Value.scalar key).settled? then (k, v) :: rest
    else (k, old) :: assign rest key v

end SchemaGuard
