/-
  SchemaGuard — type declarations for schemas.

  `declare` gives the declarations for a schema: a record for every object node
  with properties, named by the property that holds it, and the root under its
  own name. Bounds and other constraints do not show in types. A schema that
  cannot be read as types, one whose properties are no object or whose required
  names are no list, is refused as a whole.
-/
import SchemaGuard.Compile
import SchemaGuard.Document.JsonWriter
import SchemaGuard.TypeDecl.Basic
import SchemaGuard.TypeDecl.FlaggedBounds

namespace SchemaGuard.TypeDecl

/-! ## Names -/

/-- A word with an upper-case first letter. -/
def capitalized (word : String) : String :=
  match word.toList with
  | [] => ""
  | c :: cs => String.ofList (c.toUpper :: cs)

/-- The name of the record that a property holds: the property's words, each capitalized. -/
def recordName (property : String) : String :=
  String.join ((property.splitOn "_").map capitalized)

/-- The name of the record that the items of a named list are. -/
def itemName (name : String) : String := if name.endsWith "Item" then name else name ++ "Item"

/-! ## Nodes -/

/-- The type that a type name stands for. -/
def typeNamed (name : String) : TypeExpr :=
  match name with
  | "string" => .text
  | "integer" => .integer
  | "number" => .number
  | "boolean" => .boolean
  | "null" => .null
  | "array" => .list .any
  | "object" => .mapping
  | _ => .any

/-- The required names of a node; refused where they are not a list. -/
def requiredNames (node : Fields) : Option (List Value) :=
  match node.given? "required" with
  | none => some []
  | some (.list names) | some (.tuple names) => some names
  | some _ => none

/-- Whether the properties of a node, if it has any, are an object. -/
def hasObjectProperties (node : Fields) : Bool :=
  match node.given? "properties" with
  | none | some (.object _) => true
  | some _ => false

/-- A type with the records it needs, in their order. -/
abbrev Declared := TypeExpr × List Record

mutual
/-- The type of a schema; `name` is for the record that it may declare. -/
def ofNode (node : Value) (name : String) : Option Declared :=
  match node with
  | .bool _ => some (.any, [])
  | .object fields => ofFields fields name
  | _ => none
termination_by (sizeOf node, 0)
/-- The type of an object node: a record if it has properties, else one of several
    alternatives, else the type that it names. -/
def ofFields (fields : Fields) (name : String) : Option Declared := do
  let required ← requiredNames fields
  unless hasObjectProperties fields do none
  match h : fields.named? "properties" with
  | some (.object (property :: properties)) =>
    have := Fields.sizeOf_named?_object h
    let (members, records) ← ofProperties (property :: properties) required
    return (.record name, records ++ [⟨name, members⟩])
  | _ =>
  match h : fields.named? "anyOf" with
  | some (.list nodes) =>
    have := Fields.sizeOf_named?_list h
    let (types, records) ← ofAlternatives nodes name
    return (.oneOf types, records)
  | _ =>
  match fields.named? "type" with
  | some (.list names) | some (.tuple names) =>
    return (.oneOf (names.map fun n => typeNamed (n.text?.getD "")), [])
  | some (.text "array") =>
    match h : fields.named? "items" with
    | some node =>
      have := Fields.sizeOf_named? h
      let (item, records) ← ofNode node (itemName name)
      return (.list item, records)
    | none => return (.list .any, [])
  | some (.text type) => return (typeNamed type, [])
  | _ => return (.any, [])
termination_by (sizeOf fields, 1)
/-- The types of several alternatives. -/
def ofAlternatives (nodes : List Value) (name : String) : Option (List TypeExpr × List Record) :=
  match nodes with
  | [] => some ([], [])
  | node :: nodes => do
    let (type, records) ← ofNode node name
    let (types, more) ← ofAlternatives nodes name
    return (type :: types, records ++ more)
termination_by (sizeOf nodes, 0)
/-- The fields of a record. -/
def ofProperties (properties : List (Scalar × Value)) (required : List Value) :
    Option (List Member × List Record) :=
  match properties with
  | [] => some ([], [])
  | (key, node) :: properties => do
    let name ← (Json.keyName key).toOption
    let (type, records) ← ofNode node (recordName name)
    let (members, more) ← ofProperties properties required
    return (⟨name, type, required.contains (.text name)⟩ :: members, records ++ more)
termination_by (sizeOf properties, 0)
end

/-! ## Documents -/

/-- Whether a root node declares a record, be it one without fields. -/
def isRecordNode (fields : Fields) : Bool := fields.named? "type" == some (.text "object")

/-- The declarations for the schema of a named type; a document that is no object
    declares nothing. -/
def declarations? (schema : Value) (name : String) : Option Declarations := do
  guard (Json.written .inline schema).toBool
  match schema with
  | .object fields =>
    match ← ofFields fields name with
    | (.record _, records) => return ⟨records, none⟩
    | (type, records) =>
      if isRecordNode fields && type == .mapping then return ⟨[⟨name, []⟩], none⟩
      else return ⟨records, some (name, type)⟩
  | _ => return ⟨[], none⟩

/-- The declarations for the schema of a named type, read with flagged bounds. -/
def declare (schema : Value) (name : String) : Except SchemaError Declarations :=
  match declarations? schema.flagged name with
  | some d => .ok d
  | none => .error ⟨.undeclarable, "#"⟩

end SchemaGuard.TypeDecl
