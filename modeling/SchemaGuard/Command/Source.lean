/-
  SchemaGuard — documents from files and addresses.

  A source is an address if it begins with `http://` or `https://`, else a path.
  It holds YAML if it ends in `.yaml` or `.yml` (what stands behind a question
  mark does not count), else JSON. What a source answers is part of the
  `Surroundings`, so loading a document is a function.
-/
import SchemaGuard.Document.JsonReader
import SchemaGuard.Document.Yaml.Reader
import SchemaGuard.Settings

namespace SchemaGuard.Command

/-! ## Surroundings -/

/-- What a path leads to. -/
inductive FileAnswer where
  | text (s : String)
  | missing
  | directory
  /-- a path through something that is no directory -/
  | notDirectory
deriving DecidableEq, Repr

/-- What an address answers. -/
structure PageAnswer where
  status : Nat
  text : String
deriving DecidableEq, Repr

/-- Everything outside the program that its answers depend on. -/
structure Surroundings where
  file : String → FileAnswer
  page : String → PageAnswer
  env : Environment
  config : ConfigFile

/-- The parts of a path below the working directory. -/
def pathParts (path : String) : List String :=
  (path.splitOn "/").filter fun part => part != "" && part != "."

/-- What a path leads to in a working directory that holds only some files, each with
    its path. A path that ends in a slash leads to a directory. -/
def lookUp (files : List (String × String)) (path : String) : FileAnswer :=
  let parts := pathParts path
  if path.isEmpty then .missing
  else if parts.all (· == "..") then .directory
  else
    match files.find? fun f => pathParts f.1 == parts with
    | some f => if path.endsWith "/" || path.endsWith "/." then .notDirectory else .text f.2
    | none =>
      if files.any fun f => parts.isPrefixOf (pathParts f.1) then .directory
      else if files.any fun f => (pathParts f.1).isPrefixOf parts then .notDirectory
      else .missing

/-! ## Reading a source -/

/-- Why a source gave no document. -/
inductive SourceProblem where
  /-- a path without a file that can be read -/
  | unreadable (code : Nat) (reason : String)
  /-- an address that answers with an error -/
  | refused (status : Nat)
  /-- a text that is no document -/
  | malformed (detail : String)
deriving DecidableEq, Repr

/-- The wording of a problem with a source. -/
def SourceProblem.text (source : String) : SourceProblem → String
  | unreadable code reason =>
    "Cannot read " ++ source ++ ": [Errno " ++ toString code ++ "] " ++ reason ++ ": " ++
      Text.quoted source
  | refused status => "GET " ++ source ++ " failed with HTTP " ++ toString status
  | malformed detail => "Cannot parse " ++ source ++ ": " ++ detail

/-- Why loading a source gave no document. -/
inductive LoadFailure where
  | problem (p : SourceProblem)
  | fault (f : Fault)
deriving DecidableEq, Repr

/-- Whether a source is an address. -/
def isAddress (source : String) : Bool :=
  source.startsWith "http://" || source.startsWith "https://"

/-- Whether a source holds YAML. -/
def holdsYaml (source : String) : Bool :=
  let path := String.ofList ((source.toList.takeWhile (· != '?')).map Char.toLower)
  path.endsWith ".yaml" || path.endsWith ".yml"

/-- The lines of a file end in line feeds, whatever they are written with. -/
def withLineFeeds : List Char → List Char
  | '\r' :: '\n' :: rest => '\n' :: withLineFeeds rest
  | '\r' :: rest => '\n' :: withLineFeeds rest
  | c :: rest => c :: withLineFeeds rest
  | [] => []

/-- The text that a source holds. -/
def readSource (around : Surroundings) (source : String) : Except LoadFailure (List Char) :=
  if isAddress source then
    let page := around.page source
    if 400 ≤ page.status then .error (.problem (.refused page.status)) else .ok page.text.toList
  else if source.toList.contains '\x00' then .error (.fault .impossiblePath)
  else
    match around.file source with
    | .text s => .ok (withLineFeeds s.toList)
    | .missing => .error (.problem (.unreadable 2 "No such file or directory"))
    | .directory => .error (.problem (.unreadable 21 "Is a directory"))
    | .notDirectory => .error (.problem (.unreadable 20 "Not a directory"))

/-- The document that a source holds. -/
def loadDocument (around : Surroundings) (source : String) : Except LoadFailure Value := do
  let text ← readSource around source
  if holdsYaml source then
    match Yaml.read text with
    | .ok v => return v
    | .error (.refused e) => .error (.problem (.malformed (e.message text)))
    | .error (.fault f) => .error (.fault f)
  else
    match Json.read text with
    | .ok v => return v
    | .error e => .error (.problem (.malformed (e.message text)))

end SchemaGuard.Command
