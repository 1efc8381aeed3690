/-
  SchemaGuard — what the arguments of the program ask for.

  The first operand names a command; everything behind it belongs to the command.
  `Invocation.ofArguments` turns arguments into a request, a help text, the
  version, or a misuse of the program or of a command.
-/
import SchemaGuard.Command.Arguments
import SchemaGuard.Text.Case
import SchemaGuard.Text.Word
import SchemaGuard.Validator.Basic

namespace SchemaGuard.Command

/-! ## Commands -/

/-- The commands of the program. -/
inductive Name where
  | check
  | validate
  | types
  | tools
deriving DecidableEq, Repr

namespace Name

/-- The commands. -/
def all : List Name := [check, validate, types, tools]

/-- The word that calls a command. -/
def word : Name → String
  | check => "check"
  | validate => "validate"
  | types => "types"
  | tools => "tools"

/-- The operands that a command needs. -/
def operands : Name → List String
  | validate => ["SCHEMA_SOURCE", "INSTANCE_SOURCE"]
  | _ => ["SOURCE"]

/-- The options of a command. -/
def switches : Name → List Switch
  | check => [⟨"--pointer", true⟩, ⟨"--help", false⟩]
  | validate => [⟨"--additional-properties", true⟩, ⟨"--format", true⟩, ⟨"--help", false⟩]
  | types => [⟨"--name", true⟩, ⟨"--help", false⟩]
  | tools => [⟨"--help", false⟩]

/-- What a command does and what its options mean. -/
def description : Name → String
  | check =>
    "  Check that SOURCE is a well-formed, compilable schema.\n\nOptions:\n" ++
    "  --pointer TEXT  Pointer reported in errors.\n" ++
    "  --help          Show this message and exit.\n"
  | validate =>
    "  Validate INSTANCE_SOURCE against SCHEMA_SOURCE.\n\nOptions:\n" ++
    "  --additional-properties [strip|passthrough|strict]\n" ++
    "                                  How objects treat unknown keys (default: from\n" ++
    "                                  settings).\n" ++
    "  --format [text|json]            Output format.\n" ++
    "  --help                          Show this message and exit.\n"
  | types =>
    "  Print TypedDict declarations for the schema in SOURCE.\n\nOptions:\n" ++
    "  --name TEXT  Name of the root type.\n" ++
    "  --help       Show this message and exit.\n"
  | tools =>
    "  Register every tool in the manifest at SOURCE and list them.\n\nOptions:\n" ++
    "  --help  Show this message and exit.\n"

end Name

/-- The name of the program. -/
def program : String := "toolschema"

/-- What misuse concerns: the program as a whole, or one of its commands. -/
abbrev Scope := Option Name

/-- The words that lead to a scope. -/
def scopePath : Scope → String
  | none => program
  | some c => program ++ " " ++ c.word

/-- How a scope is called. -/
def usage (scope : Scope) : String :=
  let parts := match scope with
    | none => ["[OPTIONS]", "COMMAND", "[ARGS]..."]
    | some c => "[OPTIONS]" :: c.operands
  "Usage: " ++ " ".intercalate (scopePath scope :: parts) ++ "\n"

/-- The help text of a scope. -/
def help (scope : Scope) : String :=
  usage scope ++ "\n" ++
  match scope with
  | none =>
    "  toolschema — compile tool schemas into validators and type declarations.\n\nOptions:\n" ++
    "  --version  Show the version and exit.\n" ++
    "  --help     Show this message and exit.\n\nCommands:\n" ++
    "  check     Check that SOURCE is a well-formed, compilable schema.\n" ++
    "  tools     Register every tool in the manifest at SOURCE and list them.\n" ++
    "  types     Print TypedDict declarations for the schema in SOURCE.\n" ++
    "  validate  Validate INSTANCE_SOURCE against SCHEMA_SOURCE.\n"
  | some c => c.description

/-- What is printed on a misuse. -/
def misuseText (scope : Scope) (m : Misuse) : String :=
  usage scope ++ "Try '" ++ scopePath scope ++ " --help' for help.\n\nError: " ++ m.text ++ "\n"

/-! ## Requests -/

/-- How a verdict is printed. -/
inductive Format where
  | text
  | json
deriving DecidableEq, Repr

/-- The name of a format. -/
def Format.name : Format → String
  | text => "text"
  | json => "json"

/-- A command with what it works on. -/
inductive Request where
  | check (source pointer : String)
  /-- the closedness comes from the settings where none is given -/
  | validate (schemaSource instanceSource : String) (closedness : Option Closedness) (format : Format)
  /-- the name comes from the settings where none is given -/
  | types (source : String) (name : Option String)
  | tools (source : String)
deriving DecidableEq, Repr

/-- What arguments ask for. -/
inductive Invocation where
  | run (r : Request)
  | help (scope : Scope)
  | version
  /-- no arguments at all, or none that could name a command -/
  | nothing
  | misuse (scope : Scope) (m : Misuse)
deriving DecidableEq, Repr

/-! ## Choices -/

/-- The closedness that a choice names, whatever its case. -/
def closednessChoice (name : String) (v : String) : Except Misuse Closedness :=
  let folded := String.ofList (v.toList.flatMap Text.foldedLatin)
  match Closedness.all.find? fun m => m.name == folded with
  | some m => .ok m
  | none => .error (.noSuchChoice name v (Closedness.all.map Closedness.name))

/-- The format that a choice names. -/
def formatChoice (name : String) (v : String) : Except Misuse Format :=
  match [Format.text, Format.json].find? fun f => f.name == v with
  | some f => .ok f
  | none => .error (.noSuchChoice name v ([Format.text, Format.json].map Format.name))

/-- The last values of the options that choose, checked in the order in which the
    options were first given. -/
def checkChoices (a : Arguments) : Except Misuse Unit :=
  a.given.forM fun g =>
    match g.1, a.value? g.1 with
    | "--additional-properties", some v => do discard (closednessChoice g.1 v)
    | "--format", some v => do discard (formatChoice g.1 v)
    | _, _ => .ok ()

/-- The operands under some names. -/
def takeOperands : (names operands : List String) → Except Misuse (List String)
  | [], [] => .ok []
  | [], extra => .error (.unexpected extra)
  | name :: _, [] => .error (.operandMissing name)
  | _ :: names, operand :: operands => do return operand :: (← takeOperands names operands)

/-- The request that the arguments of a command make. -/
def request (c : Name) (a : Arguments) : Except Misuse Request := do
  checkChoices a
  match c, ← takeOperands c.operands a.operands with
  | .check, [source] => return .check source ((a.value? "--pointer").getD "#/schema")
  | .validate, [schemaSource, instanceSource] => do
    let closedness ← (a.value? "--additional-properties").mapM (closednessChoice "--additional-properties")
    let format ← (a.value? "--format").mapM (formatChoice "--format")
    return .validate schemaSource instanceSource closedness (format.getD .text)
  | .types, [source] => return .types source (a.value? "--name")
  | .tools, [source] => return .tools source
  | _, extra => .error (.unexpected extra)

/-! ## Arguments of the program -/

/-- The options of the program as a whole. -/
def programSwitches : List Switch := [⟨"--version", false⟩, ⟨"--help", false⟩]

/-- Whether a word could name a command. -/
def canNameCommand (word : String) : Bool :=
  match word.toList with
  | [] => true
  | c :: _ => Text.isAlphanumeric c.toNat

/-- What the arguments of a command ask for. -/
def Invocation.ofCommand (c : Name) (arguments : List String) : Invocation :=
  match parse c.switches true arguments with
  | .error m => .misuse (some c) m
  | .ok a =>
    if a.has "--help" then .help (some c)
    else
      match request c a with
      | .ok r => .run r
      | .error m => .misuse (some c) m

/-- What the arguments of the program ask for. -/
def Invocation.ofArguments (arguments : List String) : Invocation :=
  if arguments.isEmpty then .nothing
  else
    match parse programSwitches false arguments with
    | .error m => .misuse none m
    | .ok a =>
      match a.given, a.operands with
      | ("--version", _) :: _, _ => .version
      | _ :: _, _ => .help none
      | [], [] => .misuse none .commandMissing
      | [], word :: rest =>
        match Name.all.find? fun c => c.word == word with
        | some c => .ofCommand c rest
        | none => if canNameCommand word then .misuse none (.noSuchCommand word) else .nothing

end SchemaGuard.Command
