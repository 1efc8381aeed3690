/-
  SchemaGuard — arguments of commands.

  Arguments are options, each with a value or without, and operands. An option's
  value is the next argument, or stands behind an equals sign in the same one.
  After `--` everything is an operand. `parse` sorts arguments by these rules and
  refuses options that a command does not have.
-/
import SchemaGuard.Text.Quoted

namespace SchemaGuard.Command

/-! ## Misuse -/

/-- What is wrong with the arguments of a command. -/
inductive Misuse where
  | noSuchOption (name : String)
  | valueMissing (name : String)
  | valueNotTaken (name : String)
  | noSuchChoice (name value : String) (choices : List String)
  | operandMissing (name : String)
  /-- operands beyond the last one that the command takes -/
  | unexpected (operands : List String)
  | noSuchCommand (name : String)
  | commandMissing
deriving DecidableEq, Repr

/-- The wording of a misuse. -/
def Misuse.text : Misuse → String
  | noSuchOption name => "No such option " ++ Text.quoted name ++ "."
  | valueMissing name => "Option " ++ Text.quoted name ++ " requires an argument."
  | valueNotTaken name => "Option " ++ Text.quoted name ++ " does not take a value."
  | noSuchChoice name value choices =>
    "Invalid value for '" ++ name ++ "': " ++ Text.quoted value ++ " is not one of " ++
      ", ".intercalate (choices.map Text.quoted) ++ "."
  | operandMissing name => "Missing argument '" ++ name ++ "'."
  | unexpected operands =>
    "Got unexpected extra argument" ++ (if operands.length = 1 then "" else "s") ++ " (" ++
      " ".intercalate operands ++ ")"
  | noSuchCommand name => "No such command " ++ Text.quoted name ++ "."
  | commandMissing => "Missing command."

/-! ## Options and operands -/

/-- An option that a command has. -/
structure Switch where
  name : String
  takesValue : Bool
deriving DecidableEq, Repr

/-- Arguments sorted: the options that were given, in their order, each with its
    value if it has one, and the operands. -/
structure Arguments where
  given : List (String × Option String)
  operands : List String
deriving DecidableEq, Repr

namespace Arguments

/-- Whether an option was given. -/
def has (a : Arguments) (name : String) : Bool := a.given.any fun g => g.1 == name

/-- The value of an option; the last one counts. -/
def value? (a : Arguments) (name : String) : Option String :=
  (a.given.reverse.find? fun g => g.1 == name).bind (·.2)

/-- Adds an option in front. -/
def withOption (a : Arguments) (name : String) (v : Option String) : Arguments :=
  { a with given := (name, v) :: a.given }

/-- Adds an operand in front. -/
def withOperand (a : Arguments) (operand : String) : Arguments :=
  { a with operands := operand :: a.operands }

end Arguments

/-- Whether an argument is written as an option. -/
def isOption (argument : String) : Bool := argument.startsWith "-" && argument != "-"

/-- The name of an option and the value behind an equals sign. -/
def splitOption (argument : String) : String × Option String :=
  let name := argument.toList.takeWhile (· != '=')
  match argument.toList.drop name.length with
  | [] => (argument, none)
  | _ :: v => (String.ofList name, some (String.ofList v))

/-- The name under which an unknown option is refused: of one with a single dash only
    the first letter counts. -/
def refusedName (argument : String) : String :=
  if argument.startsWith "--" then (splitOption argument).1
  else String.ofList (argument.toList.take 2)

/-- Sorts arguments. Where `mixed` does not hold, everything from the first operand
    on is an operand. -/
def parse (switches : List Switch) (mixed : Bool) : List String → Except Misuse Arguments
  | [] => .ok ⟨[], []⟩
  | argument :: rest =>
    if argument == "--" then .ok ⟨[], rest⟩
    else if isOption argument then
      let (name, attached) := splitOption argument
      match switches.find? fun s => s.name == name with
      | none => .error (.noSuchOption (refusedName argument))
      | some switch =>
        match switch.takesValue, attached, rest with
        | true, some v, rest => return (← parse switches mixed rest).withOption name (some v)
        | true, none, v :: rest => return (← parse switches mixed rest).withOption name (some v)
        | true, none, [] => .error (.valueMissing name)
        | false, some _, _ => .error (.valueNotTaken name)
        | false, none, rest => return (← parse switches mixed rest).withOption name none
    else if mixed then return (← parse switches mixed rest).withOperand argument
    else .ok ⟨[], argument :: rest⟩

end SchemaGuard.Command
