/-
  SchemaGuard — compiling schemas into validators.

  `compile` turns a schema document into a tree of validators. A node is
  read by its first discriminating keyword, in the order `$ref`, `const`, `enum`,
  `anyOf`, `oneOf`, `allOf`, `type`; everything else a node says is looked at only
  by the reading it belongs to. A construct without a reading is refused
  (`SchemaError`), at the pointer of the node that uses it.

  A node with a list of types is the union of the readings of that node under each
  single type, so `compileTyped` takes the type apart from the node.
-/
import SchemaGuard.Pointer
import SchemaGuard.Validator.Basic
import SchemaGuard.Value.Equality

namespace SchemaGuard

/-! ## Refusals -/

/-- A reason for which a schema has no validator. -/
inductive SchemaProblem where
  /-- neither an object nor a truth value -/
  | notASchema
  | reference
  | enumNotList
  | enumEmpty
  | unionNotList
  | unionEmpty
  | allOfNotList
  | unsupportedType (type : Value)
  /-- a pattern that cannot be read, with the reader's message -/
  | invalidPattern (source : Value) (detail : String)
  | itemsMissing
  /-- no type declaration can be given -/
  | undeclarable
deriving DecidableEq, Repr

/-- The wording of a problem. -/
def SchemaProblem.text : SchemaProblem → String
  | notASchema => "Schema must be an object or a boolean"
  | reference => "Schema references ($ref) are not supported"
  | enumNotList => "Enum must be a list of values"
  | enumEmpty => "Enum must contain at least one value"
  | unionNotList => "Union must be a list of schemas"
  | unionEmpty => "Union must contain at least one schema"
  | allOfNotList => "allOf must be a list of schemas"
  | unsupportedType type => "Unsupported schema type: " ++ type.shown
  | invalidPattern source detail => "Invalid pattern " ++ source.quoted ++ ": " ++ detail
  | itemsMissing => "Array schema requires an `items` definition"
  | undeclarable => "Type generation failed"

/-- A schema node that uses an unsupported construct. -/
structure SchemaError where
  problem : SchemaProblem
  pointer : String
deriving DecidableEq, Repr

/-- The problem and where it is. -/
def SchemaError.message (e : SchemaError) : String := e.problem.text ++ " (at " ++ e.pointer ++ ")"

/-- Why compiling ended without a validator. -/
inductive CompileFailure where
  | refused (e : SchemaError)
  | fault (f : Fault)
deriving DecidableEq, Repr

/-- A validator, or why there is none. -/
abbrev Compiled := Except CompileFailure Validator

/-- Refuses a node. -/
def refuse {α : Type} (p : SchemaProblem) (pointer : String) : Except CompileFailure α :=
  .error (.refused ⟨p, pointer⟩)

/-! ## Keywords -/

/-- A keyword's value; null counts as absent. -/
def Fields.given? (node : Fields) (keyword : String) : Option Value :=
  match node.named? keyword with
  | some .null => none
  | v => v

/-- A numeric keyword; other values, truth values among them, count as absent. -/
def Fields.numeric? (node : Fields) (keyword : String) : Option Number :=
  (node.named? keyword).bind Value.number?

/-- What becomes of undeclared properties: a node that forbids them is always
    strict, and a strict default cannot be relaxed. -/
def closednessOf (mode : Closedness) (node : Fields) : Closedness :=
  match node.named? "additionalProperties", mode with
  | some (.bool false), _ => .strict
  | _, .strict => .strict
  | some (.bool true), _ => .passthrough
  | _, mode => mode

/-- The set of names that a value lists: the characters of a text, the items of a
    sequence, the keys of an object; nothing for vacant values. -/
def nameSet (v : Value) : Except Fault (List Value) :=
  let members (items : List Value) : Except Fault (List Value) :=
    if items.all fun i => i.settled?.isSome then .ok (Value.distinct items)
    else .error .requiredNotSet
  if v.isVacant then .ok []
  else
    match v with
    | .text s => members (s.toList.map fun c => .text (String.singleton c))
    | .scalar (.bytes data) => members (data.map fun b => .int b.toNat)
    | .list items | .tuple items => members items
    | .object fields => members (fields.map fun f => .scalar f.1)
    | _ => .error .requiredNotSet

/-- The pattern that a keyword gives; vacant values give none. -/
def compilePattern [CharacterNames] (source : Value) (pointer : String) : Except CompileFailure (Option Pattern) :=
  if source.isVacant then .ok none
  else
    match Pattern.anchored source with
    | .error f => .error (.fault f)
    | .ok text =>
      match Pattern.ofText text with
      | .ok p => .ok (some p)
      | .error (.refused r) => refuse (.invalidPattern source (r.message text)) pointer
      | .error (.fault f) => .error (.fault f)

/-- A node of type `string`. -/
def compileText [CharacterNames] (node : Fields) (pointer : String) : Compiled := do
  let pattern ← compilePattern (node.named "pattern") (pointer ++ "/pattern")
  return .text pointer
    { minLength := node.given? "minLength", maxLength := node.given? "maxLength",
      pattern := pattern, patternSource := node.given? "pattern",
      dateTime := node.named? "format" == some (.text "date-time") }

/-- A node of type `number` or `integer`. -/
def compileNumber (node : Fields) (pointer : String) (integer : Bool) : Validator :=
  .number pointer
    { integer := integer, minimum := node.numeric? "minimum",
      exclusiveMinimum := node.numeric? "exclusiveMinimum", maximum := node.numeric? "maximum",
      exclusiveMaximum := node.numeric? "exclusiveMaximum" }

/-- The rules for a list as a whole. -/
def listRules (node : Fields) : ListRules :=
  { minItems := node.given? "minItems", maxItems := node.given? "maxItems",
    uniqueItems := node.named? "uniqueItems" == some (.bool true) }

/-- A node with a list of expected values: one literal, a choice of texts, or a
    union of literals. -/
def compileEnum (values : Value) (pointer : String) : Compiled :=
  match values with
  | .list [] => refuse .enumEmpty pointer
  | .list [v] => .ok (.literal pointer v)
  | .list vs =>
    match vs.mapM Value.text? with
    | some texts => .ok (.options pointer texts)
    | none =>
      .ok (.union pointer (vs.zipIdx.map fun v =>
        .literal (pointer ++ "/enum/" ++ toString v.2) v.1))
  | _ => refuse .enumNotList pointer

/-- The union of branches; a single branch stands for itself. -/
def unionOf (pointer : String) : List Validator → Compiled
  | [] => refuse .unionEmpty pointer
  | [branch] => .ok branch
  | branches => .ok (.union pointer branches)

/-- The intersection of validators, the first two first; no validator is needed
    where none is given. -/
def intersectionOf (pointer : String) : List Validator → Validator
  | [] => .any pointer
  | v :: vs => vs.foldl (.both pointer) v

/-- The property name that a key is. -/
def propertyName (key : Scalar) : Except CompileFailure String :=
  match key with
  | .text name => .ok name
  | key => .error (.fault (.nameNotText key))

/-! ## Nodes -/

/-- The value of a field is smaller than the fields. -/
theorem Fields.sizeOf_named? {fields : Fields} {name : String} {v : Value}
    (h : fields.named? name = some v) : sizeOf v < sizeOf fields := by
  have := List.sizeOf_lt_of_mem (Fields.mem_of_named? h)
  simp at this
  omega

theorem Fields.sizeOf_named?_list {fields : Fields} {name : String} {items : List Value}
    (h : fields.named? name = some (.list items)) : sizeOf items < sizeOf fields := by
  have := Fields.sizeOf_named? h
  simp at this
  omega

theorem Fields.sizeOf_named?_object {fields parts : Fields} {name : String}
    (h : fields.named? name = some (.object parts)) : sizeOf parts < sizeOf fields := by
  have := Fields.sizeOf_named? h
  simp at this
  omega

section
variable {fields : Fields} {keyword : String} {n : Value}

theorem Fields.sizeOf_lt_node (h : fields.named? keyword = some n) :
    sizeOf n < sizeOf (Value.object fields) := by
  have := Fields.sizeOf_named? h
  simp only [Value.object.sizeOf_spec]; omega

theorem Fields.sizeOf_lt_node_of_mem {ns : List Value}
    (h : fields.named? keyword = some (.list ns)) (hn : n ∈ ns) :
    sizeOf n < sizeOf (Value.object fields) := by
  have := Fields.sizeOf_named?_list h
  have := List.sizeOf_lt_of_mem hn
  simp only [Value.object.sizeOf_spec]; omega

theorem Fields.sizeOf_lt_node_of_field {ps : Fields} (h : fields.named? keyword = some (.object ps))
    {f : Scalar × Value} (hf : f ∈ ps) : sizeOf f.2 < sizeOf (Value.object fields) := by
  have := Fields.sizeOf_named?_object h
  have := List.sizeOf_lt_of_mem hf
  cases f; simp only [Value.object.sizeOf_spec, Prod.mk.sizeOf_spec] at this ⊢; omega

end

section
variable [CharacterNames]

mutual
/-- The validator of a schema node. -/
def compileNode (mode : Closedness) (node : Value) (pointer : String) : Compiled :=
  match node with
  | .bool true => .ok (.any pointer)
  | .bool false => .ok (.never pointer)
  | .object fields => compileFields mode fields pointer
  | _ => refuse .notASchema pointer
termination_by (sizeOf node, 0, 0)
/-- The validator of an object node, by its first discriminating keyword. -/
def compileFields (mode : Closedness) (fields : Fields) (pointer : String) : Compiled :=
  if fields.has "$ref" then refuse .reference pointer
  else
    match fields.named? "const" with
    | some v => .ok (.literal pointer v)
    | none =>
    match fields.named? "enum" with
    | some values => compileEnum values pointer
    | none =>
    match h : fields.named? "anyOf" with
    | some nodes =>
      have := Fields.sizeOf_named? h
      compileUnion mode nodes (pointer ++ "/anyOf")
    | none =>
    match h : fields.named? "oneOf" with
    | some nodes =>
      have := Fields.sizeOf_named? h
      compileUnion mode nodes (pointer ++ "/oneOf")
    | none =>
    match h : fields.named? "allOf" with
    | some (.list nodes) => do
      have := Fields.sizeOf_named?_list h
      return intersectionOf (pointer ++ "/allOf") (← compileBranches mode nodes (pointer ++ "/allOf") 0)
    | some _ => refuse .allOfNotList (pointer ++ "/allOf")
    | none =>
    match h : fields.named? "type" with
    | some type =>
      have := Fields.sizeOf_named? h
      compileTyped mode fields type pointer
    | none => .ok (.any pointer)
termination_by (sizeOf fields, 2, 0)
/-- The validator of a node without other discriminating keywords, read under a type. -/
def compileTyped (mode : Closedness) (fields : Fields) (type : Value) (pointer : String) :
    Compiled :=
  match type with
  | .list types => do
    let pointer := pointer ++ "/type"
    unionOf pointer (← compileTypes mode fields types pointer 0)
  | .null => .ok (.any pointer)
  | .text "string" => compileText fields pointer
  | .text "number" => .ok (compileNumber fields pointer false)
  | .text "integer" => .ok (compileNumber fields pointer true)
  | .text "boolean" => .ok (.kind pointer "boolean")
  | .text "null" => .ok (.kind pointer "null")
  | .text "array" =>
    match h : fields.named? "items" with
    | none | some .null => refuse .itemsMissing pointer
    | some node => do
      have := Fields.sizeOf_named? h
      return .list pointer (← compileNode mode node (pointer ++ "/items")) (listRules fields)
  | .text "object" => do
    let properties ←
      match h : fields.named? "properties" with
      | none => pure []
      | some (.object properties) =>
        have := Fields.sizeOf_named?_object h
        compileProperties mode properties pointer
      | some v => if v.isVacant then pure [] else .error (.fault .propertiesNotObject)
    match nameSet (fields.named "required") with
    | .ok required => return .object pointer properties required (closednessOf mode fields)
    | .error f => .error (.fault f)
  | type => refuse (.unsupportedType type) pointer
termination_by (sizeOf fields, 1, sizeOf type)
/-- The validators of a node under each of several types. -/
def compileTypes (mode : Closedness) (fields : Fields) (types : List Value) (pointer : String)
    (index : Nat) : Except CompileFailure (List Validator) :=
  match types with
  | [] => .ok []
  | type :: types => do
    let first ← compileTyped mode fields type (pointer ++ "/" ++ toString index)
    return first :: (← compileTypes mode fields types pointer (index + 1))
termination_by (sizeOf fields, 1, sizeOf types)
/-- The union of several schemas. -/
def compileUnion (mode : Closedness) (nodes : Value) (pointer : String) : Compiled :=
  match nodes with
  | .list nodes => do unionOf pointer (← compileBranches mode nodes pointer 0)
  | _ => refuse .unionNotList pointer
termination_by (sizeOf nodes, 0, 0)
/-- The validators of several schemas. -/
def compileBranches (mode : Closedness) (nodes : List Value) (pointer : String) (index : Nat) :
    Except CompileFailure (List Validator) :=
  match nodes with
  | [] => .ok []
  | node :: nodes => do
    let first ← compileNode mode node (pointer ++ "/" ++ toString index)
    return first :: (← compileBranches mode nodes pointer (index + 1))
termination_by (sizeOf nodes, 0, 0)
/-- The validators of the properties of the object node at `pointer`. -/
def compileProperties (mode : Closedness) (properties : List (Scalar × Value)) (pointer : String) :
    Except CompileFailure (List (String × Validator)) :=
  match properties with
  | [] => .ok []
  | (key, node) :: properties => do
    let name ← propertyName key
    let first ← compileNode mode node (Pointer.child (pointer ++ "/properties") name)
    return (name, first) :: (← compileProperties mode properties pointer)
termination_by (sizeOf properties, 0, 0)
end

/-- The validator of a schema document at a pointer. Objects that do not say what
    becomes of undeclared properties follow `mode`. -/
def compile (schema : Value) (mode : Closedness) (pointer : String) : Compiled :=
  compileNode mode schema pointer

end

end SchemaGuard
