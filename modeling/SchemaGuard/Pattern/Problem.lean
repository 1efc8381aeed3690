/-
  SchemaGuard — what can be wrong with a pattern.

  A `Problem` is a cause with the data its wording needs; `Refusal` adds the
  place in the pattern, counted in characters from zero. Most problems concern a
  place; those of an expression as a whole do not.
-/
import SchemaGuard.Text.Position
import SchemaGuard.Text.Quoted

namespace SchemaGuard.Pattern

/-- A reason for which a text is no pattern. -/
inductive Problem where
  | trailingBackslash
  | badEscape (written : String)
  | incompleteEscape (written : String)
  | octalTooLarge (written : String)
  | missingBrace
  | undefinedCharacter (name : String)
  | unterminatedSet
  | badRange (written : String)
  | nothingToRepeat
  | multipleRepeat
  | minimumAboveMaximum
  | unterminatedGroup
  | unbalancedParenthesis
  | unterminatedComment
  | unexpectedEnd
  | unknownExtension (written : String)
  /-- a name of the given sort is empty -/
  | missingName (sort : String)
  | unterminatedName (terminator : String)
  | badGroupName (name : String)
  | unknownGroupName (name : String)
  | redefinedGroup (name : String) (group earlier : Nat)
  | openGroupReference
  | lookBehindReference
  | invalidReference (group : Nat)
  | badGroupNumber
  | thirdBranch
  | lateFlags
  | localeFlag
  | alphabetFlags
  | unknownFlag
  | missingFlag
  | missingFlagEnd
  | missingColon
  | globalFlagOn
  | globalFlagOff
  | alphabetFlagOff
  | flagOnAndOff
  | variableLookBehind
  | longLookBehind
  | templateRepeat (mode : String)
deriving DecidableEq, Repr

/-- The wording of a problem. -/
def Problem.text : Problem → String
  | trailingBackslash => "bad escape (end of pattern)"
  | badEscape written => "bad escape " ++ written
  | incompleteEscape written => "incomplete escape " ++ written
  | octalTooLarge written => "octal escape value " ++ written ++ " outside of range 0-0o377"
  | missingBrace => "missing \x7b"
  | undefinedCharacter name => "undefined character name " ++ Text.quoted name
  | unterminatedSet => "unterminated character set"
  | badRange written => "bad character range " ++ written
  | nothingToRepeat => "nothing to repeat"
  | multipleRepeat => "multiple repeat"
  | minimumAboveMaximum => "min repeat greater than max repeat"
  | unterminatedGroup => "missing ), unterminated subpattern"
  | unbalancedParenthesis => "unbalanced parenthesis"
  | unterminatedComment => "missing ), unterminated comment"
  | unexpectedEnd => "unexpected end of pattern"
  | unknownExtension written => "unknown extension " ++ written
  | missingName sort => "missing " ++ sort
  | unterminatedName terminator => "missing " ++ terminator ++ ", unterminated name"
  | badGroupName name => "bad character in group name " ++ Text.quoted name
  | unknownGroupName name => "unknown group name " ++ Text.quoted name
  | redefinedGroup name group earlier =>
    "redefinition of group name " ++ Text.quoted name ++ " as group " ++ toString group ++
      "; was group " ++ toString earlier
  | openGroupReference => "cannot refer to an open group"
  | lookBehindReference => "cannot refer to group defined in the same lookbehind subpattern"
  | invalidReference group => "invalid group reference " ++ toString group
  | badGroupNumber => "bad group number"
  | thirdBranch => "conditional backref with more than two branches"
  | lateFlags => "global flags not at the start of the expression"
  | localeFlag => "bad inline flags: cannot use 'L' flag with a str pattern"
  | alphabetFlags => "bad inline flags: flags 'a', 'u' and 'L' are incompatible"
  | unknownFlag => "unknown flag"
  | missingFlag => "missing flag"
  | missingFlagEnd => "missing -, : or )"
  | missingColon => "missing :"
  | globalFlagOn => "bad inline flags: cannot turn on global flag"
  | globalFlagOff => "bad inline flags: cannot turn off global flag"
  | alphabetFlagOff => "bad inline flags: cannot turn off flags 'a', 'u' and 'L'"
  | flagOnAndOff => "bad inline flags: flag turned on and off"
  | variableLookBehind => "look-behind requires fixed-width pattern"
  | longLookBehind => "looks too much behind"
  | templateRepeat mode => "internal: unsupported template operator " ++ mode

/-- A problem, and the place in the pattern if it has one. -/
structure Refusal where
  problem : Problem
  offset : Option Nat
deriving DecidableEq, Repr

/-- A problem with its place; in a pattern of several lines also the line and the column. -/
def Refusal.message (pattern : List Char) (r : Refusal) : String :=
  match r.offset with
  | none => r.problem.text
  | some offset =>
    let place := r.problem.text ++ " at position " ++ toString offset
    if pattern.contains '\n' then
      let (line, column) := Text.lineColumn pattern offset
      place ++ " (line " ++ toString line ++ ", column " ++ toString column ++ ")"
    else place

end SchemaGuard.Pattern
