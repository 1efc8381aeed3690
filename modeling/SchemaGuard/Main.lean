/-
  SchemaGuard — the program.

  Reads the files that the arguments name, runs the command, prints its outcome.
  The program has no network: every address answers that it was not found.
-/
import SchemaGuard.Command.Run

namespace SchemaGuard.Command

/-- What a path leads to on this machine. -/
def fileAnswer (path : String) : IO FileAnswer := do
  try
    return .text (← IO.FS.readFile path)
  catch _ =>
    try
      discard (IO.FS.Handle.mk path .read)
      return .directory
    catch _ => return .missing

/-- The value of a variable; empty if it is not set. -/
def variableOr (name : String) : IO String := do return (← IO.getEnv name).getD ""

/-- The configuration in the user's home directory. -/
def userConfig : IO ConfigFile := do
  match ← fileAnswer ((← variableOr "HOME") ++ "/.toolschema/config.json") with
  | .text s => return .file s
  | .missing => return .absent
  | _ => return .directory

/-- The surroundings of a run whose arguments are all taken for possible paths. -/
def surroundings (arguments : List String) : IO Surroundings := do
  let files ← arguments.mapM fun a => return (a, ← fileAnswer a)
  let env : Environment :=
    { input := ← variableOr "TOOLSCHEMA_ADDITIONAL_PROPERTIES"
      output := ← variableOr "TOOLSCHEMA_OUTPUT_ADDITIONAL_PROPERTIES"
      typeName := ← variableOr "TOOLSCHEMA_TYPE_NAME" }
  let config ← userConfig
  return { file := fun path => (files.lookup path).getD .missing
           page := fun _ => ⟨404, ""⟩
           env, config }

end SchemaGuard.Command

open SchemaGuard.Command

def main (arguments : List String) : IO UInt32 := do
  let outcome := run (← surroundings arguments) arguments
  (← IO.getStdout).putStr outcome.out
  (← IO.getStderr).putStr outcome.err
  return outcome.exitCode.toUInt32
