/-
  SchemaGuard — settings: how tools treat undeclared properties.

  Each setting comes from the environment if a variable gives it, else from a
  configuration object, else it has its default. Vacant values count as not given.
-/
import SchemaGuard.Document.JsonReader
import SchemaGuard.Fault
import SchemaGuard.Text.Blank
import SchemaGuard.Validator.Basic
import SchemaGuard.Value.Display

namespace SchemaGuard

/-! ## Modes -/

/-- Why a value gives no closedness mode. -/
inductive ModeError where
  /-- a text that names no mode -/
  | unknown (given : Value)
  | fault (f : Fault)
deriving DecidableEq, Repr

/-- The wording of an unknown mode. -/
def unknownModeMessage (given : Value) : String :=
  "Unknown additional properties mode " ++ given.quoted ++ " (expected " ++
    ", ".intercalate (Closedness.all.map Closedness.name) ++ ")"

/-- The mode with a name, whatever the case of its letters and the blanks around
    it. Only ASCII letters have a letter of a name as their lower-case form. -/
def Closedness.named? (text : String) : Option Closedness :=
  let name := String.ofList ((Text.trim text.toList).map Char.toLower)
  Closedness.all.find? fun m => m.name == name

/-- The mode that a value names. -/
def Closedness.parse (v : Value) : Except ModeError Closedness :=
  match v with
  | .text s =>
    match Closedness.named? s with
    | some m => .ok m
    | none => .error (.unknown v)
  | .scalar (.bytes _) => .error (.unknown v)
  | _ => .error (.fault .modeNotText)

/-! ## Settings -/

/-- Defaults for registering tools. -/
structure Settings where
  /-- for input schemas -/
  input : Closedness
  /-- for output schemas -/
  output : Closedness
  /-- the name of a root type -/
  typeName : Value
deriving DecidableEq, Repr

/-- Unknown input is rejected and unknown output kept, unless settings say otherwise. -/
def Settings.default : Settings := ⟨.strict, .passthrough, .text "Schema"⟩

instance : Inhabited Settings := ⟨Settings.default⟩

/-- The variables that override settings; a variable that is not set is empty. -/
structure Environment where
  input : String
  output : String
  typeName : String
deriving DecidableEq, Repr

/-- The place of the configuration in a user's files. -/
inductive ConfigFile where
  | absent
  /-- a directory stands in its place -/
  | directory
  | file (text : String)
deriving DecidableEq, Repr

/-- The object that a configuration file holds; a file that cannot be read, or
    holds something else, counts as empty. -/
def ConfigFile.object : ConfigFile → Fields
  | .absent | .directory => []
  | .file text =>
    match Json.read text.toList with
    | .ok (.object fields) => fields
    | _ => []

/-- A setting that the environment or a configuration gives. The configuration is
    looked at only where the environment gives nothing. -/
def given (fromEnv : String) (config : Value) (key : String) : Except Fault Value :=
  if !fromEnv.isEmpty then .ok (.text fromEnv)
  else
    match config with
    | .object fields => .ok (Fields.named fields key)
    | _ => .error .settingsNotObject

/-- The mode that a setting gives. -/
def modeOr (default : Closedness) (v : Value) : Except ModeError Closedness :=
  if v.isVacant then .ok default else Closedness.parse v

/-- The settings of an environment and a configuration. -/
def Settings.load (env : Environment) (config : Value) : Except ModeError Settings :=
  match given env.input config "additional_properties",
      given env.output config "output_additional_properties",
      given env.typeName config "type_name" with
  | .ok input, .ok output, .ok typeName => do
    let inputMode ← modeOr Settings.default.input input
    let outputMode ← modeOr Settings.default.output output
    return ⟨inputMode, outputMode,
      if typeName.isVacant then Settings.default.typeName else typeName⟩
  | .error f, _, _ | _, .error f, _ | _, _, .error f => .error (.fault f)

end SchemaGuard
