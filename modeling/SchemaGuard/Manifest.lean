/-
  SchemaGuard — tool manifests: declarative tool definitions.

  `Manifest.ofValue` reads one entry of a manifest's list of tools. An entry needs
  a name, a description and an input schema; an implementation is a mock unless
  the entry says otherwise.
-/
import SchemaGuard.Fault
import SchemaGuard.Value.Equality

namespace SchemaGuard

/-- How a tool is implemented. -/
inductive ImplKind where
  | mock
  | proxy
  | custom
deriving DecidableEq, Repr, Inhabited

namespace ImplKind

/-- The name of a kind. -/
def name : ImplKind → String
  | mock => "mock"
  | proxy => "proxy"
  | custom => "custom"

/-- The kind that a value names. -/
def ofValue? (v : Value) : Option ImplKind :=
  [mock, proxy, custom].find? fun k => v == .text k.name

end ImplKind

/-! ## Refusals -/

/-- What a manifest lacks. -/
inductive ManifestProblem where
  | notObject
  | name
  | description
  | schemaMissing
  | implNotObject
  | unknownKind (kind : Value)
  | modulePathMissing
  | urlMissing
  | duplicateName (name : String)
  /-- a mock result was asked of a tool that is no mock -/
  | notMock (name : String)
deriving DecidableEq, Repr

/-- The wording of a problem. -/
def ManifestProblem.text : ManifestProblem → String
  | notObject => "Tool manifest must be an object"
  | name => "Tool name must be a non-empty string"
  | description => "Tool description must be a non-empty string"
  | schemaMissing => "Tool is missing an input schema"
  | implNotObject => "Tool implementation must be an object"
  | unknownKind kind => "Unknown implementation kind " ++ kind.quoted
  | modulePathMissing => "Custom implementation is missing modulePath"
  | urlMissing => "Proxy implementation is missing url"
  | duplicateName tool => "Duplicate tool name \"" ++ tool ++ "\""
  | notMock tool => "Tool \"" ++ tool ++ "\" mock executor invoked for non-mock implementation"

/-- A part of a manifest without the expected shape. -/
structure ManifestError where
  problem : ManifestProblem
  path : String
deriving DecidableEq, Repr

/-- The problem and where it is. -/
def ManifestError.message (e : ManifestError) : String := e.problem.text ++ " (at " ++ e.path ++ ")"

/-- Why reading a manifest ended without one. -/
inductive ManifestFailure where
  | refused (e : ManifestError)
  | fault (f : Fault)
deriving DecidableEq, Repr

/-! ## Settings of implementations -/

/-- The two parts of an entry: a text of two characters, a sequence of two items,
    an object of two keys, or two bytes. -/
def entryPair (entry : Value) : Except Fault (Value × Value) :=
  let pair (parts : List Value) : Except Fault (Value × Value) :=
    match parts with
    | [a, b] => .ok (a, b)
    | _ => .error .configNotPairs
  match entry with
  | .text s => pair (s.toList.map fun c => .text (String.singleton c))
  | .list items | .tuple items => pair items
  | .object fields => pair (fields.map fun f => .scalar f.1)
  | .scalar (.bytes data) => pair (data.map fun b => .int b.toNat)
  | _ => .error .configNotEntries

/-- Entries as fields; of entries with one key the last counts, at the first one's place. -/
def entriesFields (entries : List Value) : Except Fault Fields :=
  entries.foldlM
    (fun fields entry => do
      match ← entryPair entry with
      | (.scalar key, v) => return fields.assign key v
      | _ => .error .configNotEntries)
    []

/-- The settings of an implementation as fields: an object, or a sequence of entries. -/
def configFields (config : Value) : Except Fault Fields :=
  match config with
  | .object fields => .ok fields
  | .list entries | .tuple entries => entriesFields entries
  | .text s => entriesFields (s.toList.map fun c => .text (String.singleton c))
  | .scalar (.bytes data) => entriesFields (data.map fun b => .int b.toNat)
  | _ => .error .configNotEntries

/-- The setting that a kind of implementation needs. -/
def ImplKind.neededSetting? : ImplKind → Option (String × ManifestProblem)
  | mock => none
  | custom => some ("modulePath", .modulePathMissing)
  | proxy => some ("url", .urlMissing)

/-! ## Manifests -/

/-- A tool definition. -/
structure Manifest where
  name : String
  description : String
  schema : Value
  /-- null where results are not checked -/
  schemaOut : Value
  implKind : ImplKind
  implConfig : Fields
  category : Value
deriving DecidableEq, Repr, Inhabited

namespace Manifest

/-- The place of a tool in its manifest. -/
def pointer (m : Manifest) : String := "#/tools/" ++ m.name

/-- Refuses an entry. -/
def refuse {α : Type} (p : ManifestProblem) (path : String) : Except ManifestFailure α :=
  .error (.refused ⟨p, path⟩)

/-- A value that must be a text with at least one character. -/
def filledText (v : Value) (p : ManifestProblem) (path : String) : Except ManifestFailure String :=
  match v with
  | .text s => if s.isEmpty then refuse p path else .ok s
  | _ => refuse p path

/-- The kind of an implementation and its settings. -/
def implementation (impl : Fields) (path : String) :
    Except ManifestFailure (ImplKind × Fields) := do
  let kindValue := impl.named "kind"
  match ImplKind.ofValue? kindValue with
  | none => refuse (.unknownKind kindValue) (path ++ "/kind")
  | some kind => do
    let config := if (impl.named "config").isVacant then .object [] else impl.named "config"
    match kind.neededSetting? with
    | none => pure ()
    | some (setting, problem) =>
      match config with
      | .object fields =>
        if (Fields.named fields setting).isVacant then refuse problem (path ++ "/config") else pure ()
      | _ => .error (.fault .configWithoutNames)
    match configFields config with
    | .ok fields => return (kind, fields)
    | .error f => .error (.fault f)

/-- Reads the entry at a position of a manifest's list of tools. -/
def ofValue (data : Value) (index : Int) : Except ManifestFailure Manifest :=
  let path := "#/tools/" ++ toString index
  match data with
  | .object fields => do
    let fields : Fields := fields
    let name ← filledText (fields.named "name") .name (path ++ "/name")
    let description ← filledText (fields.named "description") .description (path ++ "/description")
    match fields.named? "schema" with
    | none => refuse .schemaMissing (path ++ "/schema")
    | some schema => do
      let impl := fields.named "impl"
      let (kind, config) ←
        if impl.isVacant then pure (.mock, [])
        else
          match impl with
          | .object impl => implementation impl (path ++ "/impl")
          | _ => refuse .implNotObject (path ++ "/impl")
      return { name, description, schema, schemaOut := fields.named "schemaOut",
               implKind := kind, implConfig := config, category := fields.named "category" }
  | _ => refuse .notObject path

end Manifest

end SchemaGuard
