/-
  SchemaGuard — type declarations and their text.

  A `TypeExpr` is the type of some data; a `Record` names an object's fields with
  their types. `Declarations.text` lays declarations out as a module of type
  declarations: imports, one class per record, and an alias for a root that is
  no record.
-/
namespace SchemaGuard

/-! ## Types -/

/-- The type of a datum. -/
inductive TypeExpr where
  | any
  | text
  | integer
  | number
  | boolean
  | null
  /-- an object whose fields are not declared -/
  | mapping
  /-- a declared record -/
  | record (name : String)
  | list (item : TypeExpr)
  /-- one of several types -/
  | union (alternatives : List TypeExpr)
  /-- a type or null -/
  | optional (t : TypeExpr)
deriving BEq, Repr, Inhabited

/-- A field of a record. -/
structure Member where
  name : String
  type : TypeExpr
  required : Bool
deriving Repr

/-- A declared object. -/
structure Record where
  name : String
  members : List Member
deriving Repr

/-- The records in an order in which each one follows those it needs, and a root
    type with its name if the root is no record. -/
structure Declarations where
  records : List Record
  root : Option (String × TypeExpr)
deriving Repr

namespace TypeExpr

/-- One of several types: repeated types count once, null makes the others
    optional, and a single type stands for itself. -/
def oneOf (alternatives : List TypeExpr) : TypeExpr :=
  match alternatives.eraseDups with
  | [t] => t
  | types =>
    let others := types.filter fun t => t != .null
    let core := match others with
      | [] => .null
      | [t] => t
      | others => .union others
    if others.length < types.length then .optional core else core

mutual
/-- The annotation for a type. -/
def annotation : TypeExpr → String
  | any => "Any"
  | text => "str"
  | integer => "int"
  | number => "float"
  | boolean => "bool"
  | null => "None"
  | mapping => "Dict[str, Any]"
  | record name => name
  | list item => "List[" ++ item.annotation ++ "]"
  | union alternatives => "Union[" ++ ", ".intercalate (annotations alternatives) ++ "]"
  | optional t => "Optional[" ++ t.annotation ++ "]"
/-- The annotations for several types. -/
def annotations : List TypeExpr → List String
  | [] => []
  | t :: types => t.annotation :: annotations types
end

mutual
/-- The imported names that an annotation uses. -/
def imports : TypeExpr → List String
  | any => ["Any"]
  | mapping => ["Any", "Dict"]
  | list item => "List" :: item.imports
  | union alternatives => "Union" :: importsOfAll alternatives
  | optional t => "Optional" :: t.imports
  | _ => []
/-- The imported names that several annotations use. -/
def importsOfAll : List TypeExpr → List String
  | [] => []
  | t :: types => t.imports ++ importsOfAll types
end

end TypeExpr

/-! ## Layout -/

/-- A field's line in a class. -/
def Member.line (m : Member) : String :=
  "    " ++ m.name ++ ": " ++
    (if m.required then m.type.annotation else "NotRequired[" ++ m.type.annotation ++ "]") ++ "\n"

/-- The class of a record. -/
def Record.text (r : Record) : String :=
  "class " ++ r.name ++ "(TypedDict):\n" ++
    (if r.members.isEmpty then "    pass\n" else String.join (r.members.map Member.line))

namespace Declarations

/-- The names that can be imported for annotations, in the order of an import line. -/
def importOrder : List String :=
  ["Any", "Dict", "List", "Optional", "TypeAlias", "TypedDict", "Union"]

/-- The names that declarations use. -/
def imports (d : Declarations) : List String :=
  let used := (d.records.flatMap fun r => "TypedDict" :: r.members.flatMap fun m => m.type.imports) ++
    match d.root with
    | some (_, t) => "TypeAlias" :: t.imports
    | none => []
  importOrder.filter fun name => used.contains name

/-- Whether a field of a record may be absent. -/
def hasOptionalMember (d : Declarations) : Bool :=
  d.records.any fun r => r.members.any fun m => !m.required

/-- The text of declarations; nothing but a line end where nothing is declared. -/
def text (d : Declarations) : String :=
  if d.records.isEmpty && d.root.isNone then "\n"
  else
    "from __future__ import annotations\n\nfrom typing import " ++ ", ".intercalate d.imports ++ "\n" ++
    (if d.hasOptionalMember then "\nfrom typing_extensions import NotRequired\n" else "") ++
    String.join (d.records.map fun r => "\n\n" ++ r.text) ++
    match d.root with
    | some (name, t) =>
      (if d.records.isEmpty then "\n" else "\n\n") ++ name ++ ": TypeAlias = " ++ t.annotation ++ "\n"
    | none => ""

end Declarations

end SchemaGuard
