/-
  SchemaGuard — running the commands.

  `run` maps arguments and surroundings to an `Outcome`: what is printed and the
  exit code. The code is 0 on success, 1 where a schema, a manifest or an instance
  is refused or cannot be loaded, and 2 on misuse.
-/
import SchemaGuard.Command.Request
import SchemaGuard.Command.Source
import SchemaGuard.Document.JsonWriter
import SchemaGuard.Tool
import SchemaGuard.TypeDecl.OfSchema

namespace SchemaGuard.Command

/-! ## Outcomes -/

/-- What a run prints and how it ends; `fault` is there if a document was unfit for
    what it was used for. -/
structure Outcome where
  exitCode : Nat
  out : String
  err : String
  fault : Option Fault
deriving DecidableEq, Repr

namespace Outcome

/-- A run that ends well. -/
def success (out : String) : Outcome := ⟨0, out, "", none⟩

/-- A run that ends with a message. -/
def failure (err : String) : Outcome := ⟨1, "", err ++ "\n", none⟩

/-- A run that ends with a message about its surroundings. -/
def trouble (message : String) : Outcome := failure ("Error: " ++ message)

/-- A run that a fault ends. -/
def faulted (f : Fault) : Outcome := ⟨1, "", "", some f⟩

end Outcome

/-- A step of a run: a result, or the outcome that ends the run early. -/
abbrev Stage (α : Type) := Except Outcome α

/-- The document of a source. -/
def load (around : Surroundings) (source : String) : Stage Value :=
  match loadDocument around source with
  | .ok v => .ok v
  | .error (.problem p) => .error (.trouble (p.text source))
  | .error (.fault f) => .error (.faulted f)

/-- The settings of the surroundings. -/
def settings (around : Surroundings) : Stage Settings :=
  match Settings.load around.env (.object around.config.object) with
  | .ok s => .ok s
  | .error (.unknown given) => .error (.trouble (unknownModeMessage given))
  | .error (.fault f) => .error (.faulted f)

/-- The outcome of a refused schema or manifest. -/
def refusal : RegisterFailure → Outcome
  | .fault f => .faulted f
  | e => .failure e.message

/-- The result of preparing schemas. -/
def prepared {α : Type} (r : Except RegisterFailure α) : Stage α := r.mapError refusal

/-- A value that can be written as JSON, or a fault. -/
def writtenLines (v : Value) : Stage String :=
  match Json.written (.lines 0) v with
  | .ok s => .ok (s ++ "\n")
  | .error f => .error (.faulted f)

/-! ## Commands -/

/-- Checks that a source holds a schema that compiles. -/
def runCheck [CharacterNames] (around : Surroundings) (source pointer : String) : Stage Outcome := do
  let schema ← load around source
  let _ ← prepared (prepare schema .strip pointer pointer)
  return .success ("OK: " ++ source ++ "\n")

/-- The verdict on an instance as data. -/
def verdictValue : Verdict → Value
  | .accepted v =>
    .object [(.text "ok", .bool true), (.text "value", v), (.text "issues", .list [])]
  | .rejected issues =>
    .object [(.text "ok", .bool false), (.text "value", .null),
      (.text "issues", .list (Issue.toValues issues))]

/-- An issue in one line, with the schema node it comes from. -/
def issueLine (i : Issue) : String := i.line ++ " (" ++ i.pointer ++ ")\n"

/-- Prints a verdict. -/
def printVerdict (format : Format) (verdict : Verdict) : Stage Outcome := do
  match format, verdict with
  | .json, .accepted _ => return .success (← writtenLines (verdictValue verdict))
  | .json, .rejected _ => return ⟨1, ← writtenLines (verdictValue verdict), "", none⟩
  | .text, .accepted v => return .success (← writtenLines v)
  | .text, .rejected issues => return ⟨1, "", String.join (issues.map issueLine), none⟩

/-- Validates the instance of one source against the schema of another. -/
def runValidate [CharacterNames] (around : Surroundings) (schemaSource instanceSource : String)
    (closedness : Option Closedness) (format : Format) : Stage Outcome := do
  let settings ← settings around
  let schema ← load around schemaSource
  let inst ← load around instanceSource
  let validator ← prepared (prepare schema (closedness.getD settings.input) "#/schema" "#")
  match validator.run inst with
  | .ok verdict => printVerdict format verdict
  | .error f => .error (.faulted f)

/-- The name of the root type: the given one if it is not empty, else that of the
    settings. -/
def rootName (around : Surroundings) (given : Option String) : Stage Value :=
  match given with
  | some name => if name.isEmpty then return (← settings around).typeName else .ok (.text name)
  | none => do return (← settings around).typeName

/-- Prints type declarations for the schema of a source. -/
def runTypes (around : Surroundings) (source : String) (given : Option String) : Stage Outcome := do
  let schema ← load around source
  match (← rootName around given).text? with
  | some name =>
    match TypeDecl.declare schema name with
    | .ok d => return .success d.text
    | .error e => .error (.failure e.problem.text)
  | none => .error (.failure SchemaProblem.undeclarable.text)

/-- The list of tools that a document holds: its own items, or those of its field
    `tools`. -/
def toolEntries? (document : Value) : Option (List Value) :=
  match document with
  | .list entries => some entries
  | .object fields =>
    match Fields.named? fields "tools" with
    | some (.list entries) => some entries
    | _ => none
  | _ => none

/-- A registered tool in one line. -/
def toolLine (t : Tool) : String :=
  "  " ++ t.name ++ ": " ++ t.manifest.implKind.name ++
    (if t.output.isSome then " (input+output)\n" else " (input)\n")

/-- Registers the tools of a source and lists them. -/
def runTools [CharacterNames] (around : Surroundings) (source : String) : Stage Outcome := do
  let document ← load around source
  match toolEntries? document with
  | none => .error (.trouble "Manifest must contain a `tools` list")
  | some entries => do
    let settings ← settings around
    let tools ← prepared (registerAll (entries.map .data) settings)
    return .success (toString tools.length ++ " tool(s) registered\n" ++
      String.join (tools.map toolLine))

/-- Runs a request. -/
def runRequest [CharacterNames] (around : Surroundings) : Request → Stage Outcome
  | .check source pointer => runCheck around source pointer
  | .validate schemaSource instanceSource closedness format =>
    runValidate around schemaSource instanceSource closedness format
  | .types source name => runTypes around source name
  | .tools source => runTools around source

/-! ## The program -/

/-- The version of the program. -/
def version : String := "1.0.0"

/-- Leaves out the sequences that set the colours of a terminal: an escape
    character, an opening bracket, parameters, and a letter. -/
def withoutColours : List Char → List Char
  | '\x1b' :: '[' :: rest =>
    let isParameter (c : Char) : Bool := c == ';' || c == '?' || c.isDigit
    match rest.dropWhile isParameter with
    | c :: _ => if c.isAlpha then withoutColours (rest.drop ((rest.takeWhile isParameter).length + 1))
      else '\x1b' :: '[' :: withoutColours rest
    | [] => '\x1b' :: '[' :: withoutColours rest
  | c :: rest => c :: withoutColours rest
  | [] => []
termination_by cs => cs.length
decreasing_by all_goals simp only [List.length_drop, List.length_cons]; omega

/-- A text as it is printed. -/
def printed (s : String) : String := String.ofList (withoutColours s.toList)

/-- What an invocation prints and how it ends. -/
def runInvocation [CharacterNames] (around : Surroundings) : Invocation → Outcome
  | .run r =>
    match runRequest around r with
    | .ok o | .error o => o
  | .help scope => .success (help scope)
  | .version => .success (program ++ ", version " ++ version ++ "\n")
  | .nothing => ⟨2, "", help none, none⟩
  | .misuse scope m => ⟨2, "", misuseText scope m, none⟩

/-- Runs the program. -/
def run [CharacterNames] (around : Surroundings) (arguments : List String) : Outcome :=
  let o := runInvocation around (.ofArguments arguments)
  { o with out := printed o.out, err := printed o.err }

end SchemaGuard.Command
