/-
  SchemaGuard — the language of meta-schemas.

  A `Rule` is what a meta-schema demands of a part of a schema document. Rules are
  checked in their order and every violation is kept (`Rule.violations`). A rule
  speaks only of values of the type it concerns: `minimum` of numbers, `items` of
  lists, `properties` of objects.

  The rule `schema` demands a schema of the same dialect, and so may one of the
  types of the rule `typeIn`. Both stand below `items`, `properties` and the like
  only, so that the depth of the document bounds how often they are met.
-/
import SchemaGuard.Issue
import SchemaGuard.MetaSchema.Duplicates
import SchemaGuard.Pattern.Matcher

namespace SchemaGuard

/-! ## Violations -/

/-- A type of the oldest dialect: one with a name, or that of all schemas. -/
inductive TypeOption where
  | named (name : String)
  | schema
deriving DecidableEq, Repr

/-- A type as messages show it; schemas are of the type that the whole meta-schema describes. -/
def TypeOption.quoted : TypeOption → String
  | named name => Text.quoted name
  | schema => (Value.object [(.text "$ref", .text "#")]).quoted

/-- What a document's part does not satisfy. -/
inductive Breach where
  | type (admitted : List String)
  | typeIn (options : List TypeOption)
  | notListed (options : List String)
  | belowMinimum (limit : Int)
  | notAboveMinimum (limit : Int)
  | tooFewItems (limit : Nat)
  | repeatedItems
  | mismatch (pattern : String)
  | noAlternative
  /-- a property is there without one that it depends on -/
  | missingCompanion (missing present : String)
  /-- nested more deeply than documents are -/
  | tooDeep
deriving DecidableEq, Repr

/-- A part of a schema document that violates the meta-schema. -/
structure Violation where
  path : Path
  value : Value
  breach : Breach
deriving DecidableEq, Repr

/-- The message of a violation. -/
def Violation.message (v : Violation) : String :=
  let shown := v.value.quoted
  match v.breach with
  | .type admitted =>
    shown ++ " is not of type " ++ ", ".intercalate (admitted.map Text.quoted)
  | .typeIn options =>
    shown ++ " is not of type " ++ ", ".intercalate (options.map TypeOption.quoted)
  | .notListed options => shown ++ " is not one of " ++ (Value.list (options.map .text)).quoted
  | .belowMinimum limit => shown ++ " is less than the minimum of " ++ toString limit
  | .notAboveMinimum limit => shown ++ " is less than or equal to the minimum of " ++ toString limit
  | .tooFewItems 1 => shown ++ " should be non-empty"
  | .tooFewItems _ => shown ++ " is too short"
  | .repeatedItems => shown ++ " has non-unique elements"
  | .mismatch pattern => shown ++ " does not match " ++ Text.quoted pattern
  | .noAlternative => shown ++ " is not valid under any of the given schemas"
  | .missingCompanion missing present =>
    Text.quoted missing ++ " is a dependency of " ++ Text.quoted present
  | .tooDeep => shown ++ " is nested too deeply"

/-- The place of a violation: its steps behind slashes, as they are. -/
def Violation.place (v : Violation) : String := String.join (v.path.map fun s => "/" ++ s.token)

/-! ## Rules -/

/-- A demand on a part of a schema document. -/
inductive Rule where
  /-- its type is one of those named -/
  | type (admitted : List String)
  /-- it is of one of the types, of which schemas may be one -/
  | typeIn (options : List TypeOption)
  /-- it is one of the given texts -/
  | listed (options : List String)
  /-- a number is at least, or more than, a limit -/
  | minimum (limit : Int) (exclusive : Bool)
  /-- a list has at least this many items -/
  | minItems (limit : Nat)
  /-- a list repeats no item -/
  | uniqueItems
  /-- a text has a match of the pattern -/
  | pattern (source : String)
  /-- an object with one property has another one too -/
  | companion (present needed : String)
  /-- every item of a list follows the rule -/
  | items (rule : Rule)
  /-- the named properties of an object follow their rules -/
  | properties (declared : List (String × Rule))
  /-- every property of an object follows the rule -/
  | values (rule : Rule)
  /-- every property name of an object follows the rule -/
  | names (rule : Rule)
  /-- all rules are followed -/
  | all (rules : List Rule)
  /-- at least one rule is followed -/
  | someOf (rules : List Rule)
  /-- it is a schema -/
  | schema
deriving Repr

/-- Which numbers count as integers: whole doubles do, except in the oldest dialects. -/
structure TypeRules where
  wholeDoubles : Bool

/-- Whether a value is of a named type. Tuples and dates are of none. -/
def Value.hasType (rules : TypeRules) (v : Value) (name : String) : Bool :=
  match name, v with
  | "array", .list _ | "boolean", .bool _ | "null", .null | "number", .number _
  | "object", .object _ | "string", .text _ | "integer", .int _ => true
  | "integer", .double d => rules.wholeDoubles && d.toInt?.isSome
  | _, _ => false

/-- Whether a value is of a type of the oldest dialect, where it may be a schema or not. -/
def Value.isOf (rules : TypeRules) (v : Value) (isSchema : Bool) : TypeOption → Bool
  | .named name => v.hasType rules name
  | .schema => isSchema

section
variable [CharacterNames]

/-- Whether a text has a match of a pattern. -/
def hasMatch (source : String) (s : String) : Bool :=
  match Pattern.ofText source.toList with
  | .ok p => p.search s
  | .error _ => true

namespace Rule

/-- A violation of a rule by a part of the document, if there is one. -/
def violationIf (violated : Bool) (path : Path) (v : Value) (breach : Breach) : List Violation :=
  if violated then [⟨path, v, breach⟩] else []

/-- The step to a field. -/
def stepTo (key : Scalar) : Step := .key key.shown

mutual
/-- The violations of a rule by the part of a document at a path; `nested` gives
    those of a part that must be a schema. -/
def violations (types : TypeRules) (nested : Value → Path → List Violation) :
    Rule → Value → Path → List Violation
  | .type admitted, v, path =>
    violationIf (!admitted.any (v.hasType types)) path v (.type admitted)
  | .typeIn options, v, path =>
    violationIf (!options.any (v.isOf types (nested v path).isEmpty)) path v (.typeIn options)
  | .listed options, v, path =>
    violationIf (!options.any fun o => v == .text o) path v (.notListed options)
  | .minimum limit exclusive, v, path =>
    match v.number? with
    | none => []
    | some n =>
      if exclusive then violationIf (n.le (.int limit)) path v (.notAboveMinimum limit)
      else violationIf (n.lt (.int limit)) path v (.belowMinimum limit)
  | .minItems limit, v, path =>
    match v with
    | .list elements => violationIf (elements.length < limit) path v (.tooFewItems limit)
    | _ => []
  | .uniqueItems, v, path =>
    match v with
    | .list elements => violationIf (Value.hasRepeats elements) path v .repeatedItems
    | _ => []
  | .pattern source, v, path =>
    match v with
    | .text s => violationIf (!hasMatch source s) path v (.mismatch source)
    | _ => []
  | .companion present needed, v, path =>
    match v with
    | .object fields =>
      violationIf (Fields.has fields present && !Fields.has fields needed) path v
        (.missingCompanion needed present)
    | _ => []
  | .items rule, v, path =>
    match v with
    | .list elements =>
      elements.zipIdx.flatMap fun e => rule.violations types nested e.1 (path ++ [.index e.2])
    | _ => []
  | .properties declared, v, path =>
    match v with
    | .object fields => violationsDeclared types nested declared fields path
    | _ => []
  | .values rule, v, path =>
    match v with
    | .object fields =>
      fields.flatMap fun f => rule.violations types nested f.2 (path ++ [stepTo f.1])
    | _ => []
  | .names rule, v, path =>
    match v with
    | .object fields => fields.flatMap fun f => rule.violations types nested (.scalar f.1) path
    | _ => []
  | .all rules, v, path => violationsAll types nested rules v path
  | .someOf rules, v, path =>
    violationIf (!followsSome types nested rules v path) path v .noAlternative
  | .schema, v, path => nested v path
/-- The violations of several rules, in their order. -/
def violationsAll (types : TypeRules) (nested : Value → Path → List Violation) :
    List Rule → Value → Path → List Violation
  | [], _, _ => []
  | rule :: rules, v, path =>
    rule.violations types nested v path ++ violationsAll types nested rules v path
/-- The violations by declared properties, in the order of the declarations. -/
def violationsDeclared (types : TypeRules) (nested : Value → Path → List Violation) :
    List (String × Rule) → Fields → Path → List Violation
  | [], _, _ => []
  | (name, rule) :: declared, fields, path =>
    (match fields.named? name with
      | some v => rule.violations types nested v (path ++ [.key name])
      | none => []) ++ violationsDeclared types nested declared fields path
/-- Whether at least one of several rules is followed. -/
def followsSome (types : TypeRules) (nested : Value → Path → List Violation) :
    List Rule → Value → Path → Bool
  | [], _, _ => false
  | rule :: rules, v, path =>
    (rule.violations types nested v path).isEmpty || followsSome types nested rules v path
end

end Rule

end

/-! ## Documents -/

mutual
/-- How deeply containers are nested in a value. -/
def Value.depth : Value → Nat
  | .scalar _ => 0
  | .list items | .tuple items => depthItems items + 1
  | .object fields => depthFields fields + 1
/-- The greatest depth of some values. -/
def Value.depthItems : List Value → Nat
  | [] => 0
  | v :: vs => max v.depth (Value.depthItems vs)
/-- The greatest depth of the values of fields. -/
def Value.depthFields : List (Scalar × Value) → Nat
  | [] => 0
  | (_, v) :: fields => max v.depth (Value.depthFields fields)
end

/-- The violations of a meta-schema by a document in which schemas are nested at
    most `levels` deep. -/
def Rule.violationsIn [CharacterNames] (types : TypeRules) (rule : Rule) :
    (levels : Nat) → Value → Path → List Violation
  | 0, v, path => [⟨path, v, .tooDeep⟩]
  | levels + 1, v, path => rule.violations types (violationsIn types rule levels) v path

end SchemaGuard
