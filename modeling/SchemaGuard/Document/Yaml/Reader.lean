/-
  SchemaGuard — reading YAML texts.

  `Yaml.read` reads the only document of a text; an empty text is null. Keys are
  scalars of any type. Of repeated keys the last value counts, at the first one's
  place.
-/
import SchemaGuard.Document.Yaml.Node
import SchemaGuard.Document.Yaml.Plain
import SchemaGuard.Value.Equality

namespace SchemaGuard.Yaml

/-- Why reading a text gave no value. -/
inductive Failure where
  | refused (e : ReadError)
  | fault (f : Fault)
deriving DecidableEq, Repr

/-- The scalar that a text stands for; only plain ones stand for anything else than
    themselves. -/
def scalarOf (text : String) (plain : Bool) : Except Failure Scalar :=
  if plain then
    match resolve text with
    | .ok s => .ok s
    | .error f => .error (.fault f)
  else .ok (.text text)

/-- The key of a field of the mapping at a place. -/
def keyOf (mapping : Place) : Node → Except Failure Scalar
  | .scalar text plain _ => scalarOf text plain
  | .sequence _ p | .mapping _ p =>
    .error (.refused (.stopped (some .mapping) (some mapping) .keyNotScalar p))

mutual
/-- The value of a node. -/
def valueOf : Node → Except Failure Value
  | .scalar text plain _ => return .scalar (← scalarOf text plain)
  | .sequence nodes _ => return .list (← valuesOf nodes)
  | .mapping fields p => return .object (← fieldsOf p [] fields)
/-- The values of several nodes. -/
def valuesOf : List Node → Except Failure (List Value)
  | [] => .ok []
  | node :: nodes => do
    let first ← valueOf node
    return first :: (← valuesOf nodes)
/-- The fields of a mapping, added to those before them. -/
def fieldsOf (mapping : Place) (before : Fields) : List (Node × Node) → Except Failure Fields
  | [] => .ok before
  | (key, node) :: fields => do
    let key ← keyOf mapping key
    let v ← valueOf node
    fieldsOf mapping (before.assign key v) fields
end

/-- Reads the document of a text. -/
def read (text : List Char) : Except Failure Value :=
  match Node.ofTokens (tokenize text) with
  | .error e => .error (.refused e)
  | .ok none => .ok .null
  | .ok (some node) => valueOf node

end SchemaGuard.Yaml
