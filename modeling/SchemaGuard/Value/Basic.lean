/-
  SchemaGuard — the data that schemas describe and are written in.

  A `Value` is a scalar, a sequence (a list, or a tuple where the data was not
  read from a text) or an object whose fields keep their order. Keys of objects
  are scalars: texts in JSON, any scalar in YAML. The fields of a value that was
  read have pairwise different keys; `named?` takes the first one that fits.

  * `named?`, `has` and `set` look up, test and set a field by its name;
  * `isVacant` holds of the values that count as absent where a keyword is
    optional: null, false, zero and everything empty;
  * `kind` is the name of a value's type as messages show it.
-/
import SchemaGuard.Number.Basic
import SchemaGuard.Calendar

namespace SchemaGuard

/-- A datum without parts. -/
inductive Scalar where
  | null
  | bool (b : Bool)
  | number (n : Number)
  | text (s : String)
  | bytes (data : List UInt8)
  | date (d : Date)
  | moment (m : Moment)
deriving DecidableEq, Repr, Inhabited

/-- A datum. -/
inductive Value where
  /-- a datum without parts -/
  | scalar (s : Scalar)
  /-- a sequence as documents write it -/
  | list (items : List Value)
  /-- a fixed sequence, which only a caller can supply -/
  | tuple (items : List Value)
  /-- fields in their order -/
  | object (fields : List (Scalar × Value))
deriving Repr, Inhabited

/-- The fields of an object, in their order. -/
abbrev Fields := List (Scalar × Value)

namespace Value

@[match_pattern] abbrev null : Value := .scalar .null
@[match_pattern] abbrev bool (b : Bool) : Value := .scalar (.bool b)
@[match_pattern] abbrev number (n : Number) : Value := .scalar (.number n)
@[match_pattern] abbrev int (n : Int) : Value := .scalar (.number (.int n))
@[match_pattern] abbrev double (d : Double) : Value := .scalar (.number (.double d))
@[match_pattern] abbrev text (s : String) : Value := .scalar (.text s)

/-! ## Equality of data -/

mutual
/-- Equality of values can be decided. -/
protected def decEq : (a b : Value) → Decidable (a = b)
  | .scalar a, .scalar b => decidable_of_iff (a = b) (by simp)
  | .list a, .list b => match Value.decEqList a b with
    | isTrue h => isTrue (by rw [h])
    | isFalse h => isFalse (by simpa using h)
  | .tuple a, .tuple b => match Value.decEqList a b with
    | isTrue h => isTrue (by rw [h])
    | isFalse h => isFalse (by simpa using h)
  | .object a, .object b => match Value.decEqFields a b with
    | isTrue h => isTrue (by rw [h])
    | isFalse h => isFalse (by simpa using h)
  | .scalar _, .list _ | .scalar _, .tuple _ | .scalar _, .object _
  | .list _, .scalar _ | .list _, .tuple _ | .list _, .object _
  | .tuple _, .scalar _ | .tuple _, .list _ | .tuple _, .object _
  | .object _, .scalar _ | .object _, .list _ | .object _, .tuple _ => isFalse nofun
/-- Equality of sequences of values can be decided. -/
protected def decEqList : (a b : List Value) → Decidable (a = b)
  | [], [] => isTrue rfl
  | [], _ :: _ | _ :: _, [] => isFalse nofun
  | x :: xs, y :: ys => match Value.decEq x y, Value.decEqList xs ys with
    | isTrue h, isTrue h' => isTrue (by rw [h, h'])
    | isFalse h, _ => isFalse (by simp [h])
    | _, isFalse h => isFalse (by simp [h])
/-- Equality of fields can be decided. -/
protected def decEqFields : (a b : Fields) → Decidable (a = b)
  | [], [] => isTrue rfl
  | [], _ :: _ | _ :: _, [] => isFalse nofun
  | (k, x) :: xs, (l, y) :: ys =>
    if hk : k = l then
      match Value.decEq x y, Value.decEqFields xs ys with
      | isTrue h, isTrue h' => isTrue (by rw [hk, h, h'])
      | isFalse h, _ => isFalse (by simp [h])
      | _, isFalse h => isFalse (by simp [h])
    else isFalse (by simp [hk])
end

instance : DecidableEq Value := Value.decEq

/-! ## Parts -/

/-- The elements of a list or tuple. -/
def elements? : Value → Option (List Value)
  | .list items | .tuple items => some items
  | _ => none

/-- The number that a value is; truth values are none. -/
def number? : Value → Option Number
  | .number n => some n
  | _ => none

/-- The text that a value is. -/
def text? : Value → Option String
  | .text s => some s
  | _ => none

/-- The values that stand for absence where something is optional: null, false,
    zero, and everything empty. -/
def isVacant : Value → Bool
  | .null => true
  | .bool b => !b
  | .number n => n.normal == .int 0
  | .text s => s.isEmpty
  | .scalar (.bytes data) => data.isEmpty
  | .scalar (.date _) | .scalar (.moment _) => false
  | .list items | .tuple items => items.isEmpty
  | .object fields => fields.isEmpty

/-- The name of a value's type. A NaN is not called a number, and whole doubles
    are not called integers. -/
def kind : Value → String
  | .null => "null"
  | .bool _ => "boolean"
  | .int _ => "integer"
  | .double (.nan _) => "nan"
  | .double _ => "number"
  | .text _ => "string"
  | .scalar (.bytes _) => "bytes"
  | .scalar (.date _) => "date"
  | .scalar (.moment _) => "datetime"
  | .list _ | .tuple _ => "array"
  | .object _ => "object"

end Value

/-! ## Fields by name -/

namespace Fields

/-- The value of the first field with a name. -/
def named? (fields : Fields) (name : String) : Option Value :=
  (List.find? (fun f => f.1 == Scalar.text name) fields).map (·.2)

/-- Whether there is a field with a name. -/
def has (fields : Fields) (name : String) : Bool := (named? fields name).isSome

/-- The value of a field, null if there is no such field. -/
def named (fields : Fields) (name : String) : Value := (named? fields name).getD .null

/-- Sets a field: in its place if it is there, else at the end. -/
def put : Fields → Scalar → Value → Fields
  | [], key, v => [(key, v)]
  | (k, old) :: rest, key, v =>
    if k = key then (k, v) :: rest else (k, old) :: put rest key v

/-- Sets a field with a name. -/
def set (fields : Fields) (name : String) (v : Value) : Fields := fields.put (.text name) v

@[simp] theorem named?_nil (name : String) : named? [] name = none := rfl

theorem named?_cons (key : Scalar) (v : Value) (fields : Fields) (name : String) :
    named? ((key, v) :: fields) name = if key = .text name then some v else named? fields name := by
  unfold named?
  by_cases h : key = .text name <;> simp [h]

theorem mem_of_named? {fields : Fields} {name : String} {v : Value}
    (h : named? fields name = some v) : (.text name, v) ∈ fields := by
  induction fields with
  | nil => simp at h
  | cons f fields ih =>
    obtain ⟨key, w⟩ := f
    rw [named?_cons] at h
    split at h
    · simp_all
    · exact List.mem_cons_of_mem _ (ih h)

/-- Setting a field shows at its name and nowhere else. -/
theorem named?_set (fields : Fields) (name other : String) (v : Value) :
    named? (fields.set name v) other = if name = other then some v else named? fields other := by
  unfold set
  induction fields with
  | nil => simp [put, named?_cons]
  | cons f fields ih =>
    obtain ⟨key, w⟩ := f
    by_cases hk : key = .text name
    · subst hk
      by_cases ho : name = other <;> simp [put, named?_cons, ho]
    · simp only [put, hk, if_false, named?_cons, ih]
      by_cases ho : name = other
      · subst ho; simp [hk]
      · simp [ho]

/-- The keys in their order. -/
def keys (fields : Fields) : List Scalar := fields.map (·.1)

end Fields

end SchemaGuard
