/-
  SchemaGuard — end anchors.

  In a pattern `$` also matches before a final line end. Schemas mean the end of
  the text, so every bare `$` becomes `\Z` before the pattern is read:
  one pass over the pattern, which skips escaped characters and what it takes for
  character sets, from `[` to the next `]`.

  A pattern that is not a text is taken as the sequence of its pieces.
-/
import SchemaGuard.Fault
import SchemaGuard.Pattern.Syntax

namespace SchemaGuard.Pattern

/-- What the pass knows about the next piece. -/
inductive Scan where
  /-- ordinary -/
  | plain
  /-- inside a character set -/
  | inSet
  /-- escaped, outside of a set -/
  | escaped
  /-- escaped, inside a set -/
  | escapedInSet
deriving DecidableEq, Repr

/-- The state after a piece. -/
def Scan.next (state : Scan) (piece : List Char) : Scan :=
  match state with
  | .escaped => .plain
  | .escapedInSet => .inSet
  | .plain => if piece = ['\\'] then .escaped else if piece = ['['] then .inSet else .plain
  | .inSet => if piece = ['\\'] then .escapedInSet else if piece = [']'] then .plain else .inSet

/-- What becomes of a piece: only a bare `$` changes. -/
def Scan.anchored (state : Scan) (piece : List Char) : List Char :=
  if state = .plain ∧ piece = ['$'] then ['\\', 'Z'] else piece

/-- Pieces with anchors in place of bare `$`, put together. -/
def anchorPieces : Scan → List (List Char) → List Char
  | _, [] => []
  | state, piece :: pieces => state.anchored piece ++ anchorPieces (state.next piece) pieces

/-- A pattern with `\Z` in place of every bare `$`. -/
def anchorEnd (pattern : List Char) : List Char := anchorPieces .plain (pattern.map ([·]))

/-- The pieces of a pattern: the characters of a text, the items of a sequence, the
    keys of an object. All of them must be texts. -/
def pieces? (pattern : Value) : Except Fault (List (List Char)) :=
  let texts (items : List Value) : Except Fault (List (List Char)) :=
    items.mapM fun
      | .text s => .ok s.toList
      | _ => .error .patternNotText
  match pattern with
  | .text s => .ok (s.toList.map ([·]))
  | .list items | .tuple items => texts items
  | .object fields => texts (fields.map fun f => .scalar f.1)
  | .scalar (.bytes []) => .ok []
  | _ => .error .patternNotText

/-- The pattern that a value gives, with `\Z` in place of every bare `$`. -/
def anchored (pattern : Value) : Except Fault (List Char) :=
  return anchorPieces .plain (← pieces? pattern)

theorem anchored_text (s : String) : anchored (.text s) = .ok (anchorEnd s.toList) := rfl

end SchemaGuard.Pattern
