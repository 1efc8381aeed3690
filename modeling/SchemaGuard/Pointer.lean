/-
  SchemaGuard — pointers into schemas and paths into instances.

  A pointer is a base text followed by tokens, each behind a slash; inside a
  token `~` is written `~0` and `/` is written `~1`, so that tokens may hold any
  text. `unescape` undoes `escape` (`unescape_escape`).

  A path leads into an instance by property names and list indices; its text
  (`Path.text`) is the pointer of those names and indices.
-/
import SchemaGuard.Value.Basic

namespace SchemaGuard

namespace Pointer

/-! ## Tokens -/

/-- A character of a token as pointers write it. -/
def escapedChar : Char → List Char
  | '~' => ['~', '0']
  | '/' => ['~', '1']
  | c => [c]

/-- A token as pointers write it. -/
def escape (token : String) : String := String.ofList (token.toList.flatMap escapedChar)

/-- The token that a written token stands for; a `~` that starts no escape stands for itself. -/
def unescapedChars : List Char → List Char
  | '~' :: '0' :: cs => '~' :: unescapedChars cs
  | '~' :: '1' :: cs => '/' :: unescapedChars cs
  | c :: cs => c :: unescapedChars cs
  | [] => []

/-- The token that a written token stands for. -/
def unescape (written : String) : String := String.ofList (unescapedChars written.toList)

theorem unescapedChars_cons {c : Char} (h : c ≠ '~') (cs : List Char) :
    unescapedChars (c :: cs) = c :: unescapedChars cs := by
  rw [unescapedChars.eq_def]
  split <;> simp_all

theorem unescapedChars_escaped (cs : List Char) :
    unescapedChars (cs.flatMap escapedChar) = cs := by
  induction cs with
  | nil => rfl
  | cons c cs ih =>
    rw [List.flatMap_cons]
    by_cases h : c = '~'
    · subst h; simp [escapedChar, unescapedChars, ih]
    · by_cases h' : c = '/'
      · subst h'; simp [escapedChar, unescapedChars, ih]
      · have : escapedChar c = [c] := by unfold escapedChar; split <;> simp_all
        rw [this, List.singleton_append, unescapedChars_cons h, ih]

/-- Escaping loses nothing. -/
theorem unescape_escape (token : String) : unescape (escape token) = token := by
  simp [unescape, escape, unescapedChars_escaped]

/-- The pointer of a part, under its token. -/
def child (pointer token : String) : String := pointer ++ "/" ++ escape token

/-- The text of a sequence of tokens. -/
def ofTokens (tokens : List String) : String := String.join (tokens.map fun t => "/" ++ escape t)

end Pointer

/-! ## Paths -/

/-- One step into an instance. -/
inductive Step where
  /-- to the property of an object -/
  | key (name : String)
  /-- to the element of a sequence -/
  | index (i : Nat)
deriving DecidableEq, Repr

/-- The token of a step. -/
def Step.token : Step → String
  | .key name => name
  | .index i => toString i

/-- A way into an instance, from its root. -/
abbrev Path := List Step

/-- The pointer text of a path, empty for the root. -/
def Path.text (path : Path) : String := Pointer.ofTokens (path.map Step.token)

@[simp] theorem Path.text_nil : Path.text [] = "" := rfl

end SchemaGuard
