/-
  SchemaGuard — guarded tools.

  A `Tool` is a manifest with its compiled validators. `Tool.guarded` guards a
  handler, any function that may fail or have effects: the handler sees only
  cleaned arguments, the caller only cleaned results; `Tool.wrap` also tells what
  the handler received. `registerAll` turns a manifest's entries into
  tools, all of them or none.
-/
import SchemaGuard.Compile
import SchemaGuard.Manifest
import SchemaGuard.MetaSchema.Draft
import SchemaGuard.Settings
import SchemaGuard.Validator.Check

namespace SchemaGuard

/-- A registered tool. -/
structure Tool where
  manifest : Manifest
  input : Validator
  /-- none where results are not checked -/
  output : Option Validator
deriving Repr, Inhabited

/-- Why a guarded call did not give a result; `ε` is what the handler may raise. -/
inductive CallFailure (ε : Type) where
  /-- the arguments or the result were rejected -/
  | rejected (issues : List Issue)
  /-- the handler failed -/
  | raised (e : ε)
  | fault (f : Fault)
deriving Repr

/-- A guarded call: what the handler received, if it was called, and the outcome. -/
structure Call (ε : Type) where
  received : Option Value
  outcome : Except (CallFailure ε) Value
deriving Repr

namespace Tool

/-- The name of a tool. -/
def name (t : Tool) : String := t.manifest.name

/-! ## Calls -/

/-- Checks arguments. -/
def checkInput (t : Tool) (args : Value) : Except Fault Verdict := t.input.run args

/-- Checks a result; without an output schema every result is accepted. -/
def checkOutput (t : Tool) (result : Value) : Except Fault Verdict :=
  match t.output with
  | none => .ok (.accepted result)
  | some v => v.run result

/-- The accepted value of a check. -/
def accept {ε : Type} : Except Fault Verdict → Except (CallFailure ε) Value
  | .ok (.accepted v) => .ok v
  | .ok (.rejected issues) => .error (.rejected issues)
  | .error f => .error (.fault f)

/-- What a guarded call answers after the handler ran: its failure, or its checked result. -/
def answer {ε : Type} (t : Tool) : Except ε Value → Except (CallFailure ε) Value
  | .error e => .error (.raised e)
  | .ok result => accept (t.checkOutput result)

/-- Guards a handler with effects of any kind: it is called with the cleaned
    arguments only if they are accepted, and its result is checked in turn. -/
def guarded {ε : Type} {m : Type → Type} [Monad m] (t : Tool) (handler : Value → m (Except ε Value))
    (args : Value) : m (Except (CallFailure ε) Value) :=
  match accept (t.checkInput args) with
  | .error e => pure (.error e)
  | .ok clean => do return t.answer (← handler clean)

/-- A handler that notes what it receives. -/
def noted {ε : Type} (handler : Value → Except ε Value) (args : Value) :
    StateM (Option Value) (Except ε Value) := do
  set (some args)
  return handler args

/-- A guarded call of a handler without other effects. -/
def wrap {ε : Type} (t : Tool) (handler : Value → Except ε Value) (args : Value) : Call ε :=
  let (outcome, received) := (t.guarded (noted handler) args).run none
  ⟨received, outcome⟩

/-- The result of a mock: the configured one, or an echo of the arguments. -/
def mockResult (t : Tool) (args : Value) : Except ManifestError Value :=
  if t.manifest.implKind = .mock then
    .ok ((t.manifest.implConfig.named? "result").getD
      (.object [(.text "ok", .bool true), (.text "echo", args)]))
  else .error ⟨.notMock t.name, t.manifest.pointer ++ "/impl"⟩

end Tool

/-! ## Registration -/

/-- Why there is no registered tool. -/
inductive RegisterFailure where
  | manifest (e : ManifestError)
  | invalid (e : InvalidSchema)
  | conversion (e : SchemaError)
  | fault (f : Fault)
deriving DecidableEq, Repr

/-- The message of a failure; faults have none. -/
def RegisterFailure.message : RegisterFailure → String
  | manifest e => e.message
  | invalid e => e.message
  | conversion e => e.message
  | fault _ => ""

section
variable [CharacterNames]

/-- Checks a schema against its meta-schema, then compiles it. -/
def prepare (schema : Value) (mode : Closedness) (checkedAt pointer : String) :
    Except RegisterFailure Validator :=
  match checkSchema schema checkedAt with
  | .error f => .error (.fault f)
  | .ok (.error e) => .error (.invalid e)
  | .ok (.ok ()) =>
    match compile schema mode pointer with
    | .ok v => .ok v
    | .error (.refused e) => .error (.conversion e)
    | .error (.fault f) => .error (.fault f)

/-- Prepares both schemas of a manifest, the input schema first. -/
def register (m : Manifest) (settings : Settings) : Except RegisterFailure Tool := do
  let schemaPointer := m.pointer ++ "/schema"
  let input ← prepare m.schema settings.input schemaPointer schemaPointer
  if m.schemaOut = .null then return ⟨m, input, none⟩
  else
    let outputPointer := m.pointer ++ "/schemaOut"
    let output ← prepare m.schemaOut settings.output outputPointer outputPointer
    return ⟨m, input, some output⟩

end

/-- An entry of a list of tools. -/
inductive Entry where
  /-- a manifest that has been read -/
  | parsed (m : Manifest)
  | data (v : Value)

/-- The manifest of the entry at a position. -/
def Entry.manifest (entry : Entry) (index : Nat) : Except RegisterFailure Manifest :=
  match entry with
  | .parsed m => .ok m
  | .data v =>
    match Manifest.ofValue v index with
    | .ok m => .ok m
    | .error (.refused e) => .error (.manifest e)
    | .error (.fault f) => .error (.fault f)

section
variable [CharacterNames]

/-- Registers entries from a position on, after the tools already registered. -/
def registerFrom (settings : Settings) : (index : Nat) → (registered : List Tool) → List Entry →
    Except RegisterFailure (List Tool)
  | _, registered, [] => .ok registered
  | index, registered, entry :: entries => do
    let m ← entry.manifest index
    if registered.any fun t => t.name == m.name then
      .error (.manifest ⟨.duplicateName m.name, "#/tools"⟩)
    else
      let tool ← register m settings
      registerFrom settings (index + 1) (registered ++ [tool]) entries

/-- Registers all entries, in their order. -/
def registerAll (entries : List Entry) (settings : Settings) : Except RegisterFailure (List Tool) :=
  registerFrom settings 0 [] entries

end

end SchemaGuard
