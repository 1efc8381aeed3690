/-
  SchemaGuard — the syntax of patterns.

  An `Expr` is a regular expression with captures, back references, look-around,
  atomic groups and conditionals. Characters are given by their code points, so
  that a pattern may name codes which no text holds.

  * `Flags` are the modes in which an expression is matched, `FlagChange` what a
    group turns on and off;
  * `Expr.width` bounds the number of characters that an expression matches.
-/
import SchemaGuard.Text.Word
import SchemaGuard.Text.Blank
import SchemaGuard.Text.Case

namespace SchemaGuard.Pattern

/-! ## Modes -/

/-- The modes of matching and reading. -/
structure Flags where
  /-- letters match whatever their case -/
  ignoreCase : Bool
  /-- line starts and ends count as text starts and ends -/
  multiline : Bool
  /-- the dot matches line ends too -/
  dotAll : Bool
  /-- blanks and comments are left out when the pattern is read -/
  verbose : Bool
  /-- classes and case are those of ASCII -/
  ascii : Bool
  /-- classes and case are those of Unicode -/
  unicode : Bool
  /-- repetition is not supported -/
  template : Bool
deriving DecidableEq, Repr, Inhabited

namespace Flags

/-- No mode at all. -/
def none : Flags := ⟨false, false, false, false, false, false, false⟩

/-- All modes of either. -/
def union (a b : Flags) : Flags :=
  ⟨a.ignoreCase || b.ignoreCase, a.multiline || b.multiline, a.dotAll || b.dotAll,
   a.verbose || b.verbose, a.ascii || b.ascii, a.unicode || b.unicode, a.template || b.template⟩

/-- The modes of the first that the second lacks. -/
def without (a b : Flags) : Flags :=
  ⟨a.ignoreCase && !b.ignoreCase, a.multiline && !b.multiline, a.dotAll && !b.dotAll,
   a.verbose && !b.verbose, a.ascii && !b.ascii, a.unicode && !b.unicode,
   a.template && !b.template⟩

/-- Whether an alphabet is chosen. -/
def choosesAlphabet (f : Flags) : Bool := f.ascii || f.unicode

/-- Modes with some turned on and some turned off; a chosen alphabet replaces the other. -/
def change (f on off : Flags) : Flags :=
  let base := if on.choosesAlphabet then { f with ascii := false, unicode := false } else f
  (base.union on).without off

end Flags

/-! ## Expressions -/

/-- Classes of characters with a name. -/
inductive Category where
  | digit
  | blank
  | word
deriving DecidableEq, Repr

/-- What a set of characters lists. -/
inductive Member where
  | code (c : Nat)
  | range (first last : Nat)
  | category (negated : Bool) (c : Category)
deriving DecidableEq, Repr

/-- Places between characters. -/
inductive Place where
  /-- the start of the text, in multiline mode of a line -/
  | start
  /-- the start of the text -/
  | textStart
  /-- the end of the text or before its last line end, in multiline mode the end of a line -/
  | finish
  /-- the end of the text -/
  | textEnd
  /-- between a word character and another one -/
  | boundary
  /-- not at a boundary -/
  | nonBoundary
deriving DecidableEq, Repr

/-- In which order the numbers of repetitions are tried. -/
inductive Mode where
  /-- the most first -/
  | greedy
  /-- the fewest first -/
  | lazy
  /-- the most only -/
  | possessive
deriving DecidableEq, Repr

/-- Whether a group looks ahead, or back over a number of characters of which the
    least and the greatest are given. -/
inductive Direction where
  | ahead
  | behind (least greatest : Nat)
deriving DecidableEq, Repr

/-- A regular expression. -/
inductive Expr where
  /-- one given character -/
  | literal (code : Nat)
  /-- any character, but for a line end only in dot-all mode -/
  | any
  /-- a character that is listed, or that is not -/
  | set (negated : Bool) (members : List Member)
  /-- a place -/
  | at (place : Place)
  /-- a group whose match is kept under its number -/
  | capture (group : Nat) (body : Expr)
  /-- a group in modes of its own -/
  | modal (on off : Flags) (body : Expr)
  /-- a group that is matched in one way only -/
  | atomic (body : Expr)
  /-- a group that must, or must not, match here without taking characters -/
  | look (direction : Direction) (negated : Bool) (body : Expr)
  /-- what a group matched -/
  | back (group : Nat)
  /-- one expression if a group matched, else the other -/
  | choose (group : Nat) (yes no : Expr)
  /-- repetition, without an upper bound if none is given -/
  | repeated (least : Nat) (greatest : Option Nat) (mode : Mode) (body : Expr)
  /-- one after the other -/
  | seq (parts : List Expr)
  /-- the first alternative that leads to a match -/
  | alt (branches : List Expr)
deriving Repr, Inhabited

/-! ## Width -/

/-- The least and the greatest number of characters of a match. -/
structure Width where
  least : Nat
  greatest : Nat
deriving DecidableEq, Repr

namespace Width

/-- Widths are counted up to this bound; it stands for no bound. -/
def bound : Nat := 18446744073709551616

/-- A width no larger than the bound. -/
def capped (w : Width) : Width := ⟨min w.least bound, min w.greatest bound⟩

/-- The width of two matches in a row. -/
def add (a b : Width) : Width := ⟨a.least + b.least, a.greatest + b.greatest⟩

/-- The width of either of two matches. -/
def either (a b : Width) : Width := ⟨min a.least b.least, max a.greatest b.greatest⟩

/-- The width of a repetition. -/
def times (w : Width) (least : Nat) (greatest : Option Nat) : Width :=
  ⟨w.least * least, match greatest with
    | some n => w.greatest * n
    | .none => if w.greatest = 0 then 0 else bound⟩

end Width

mutual
/-- The width of an expression, given the widths of the groups before it. -/
def Expr.width (groups : Nat → Width) : Expr → Width
  | .literal _ | .any | .set _ _ => ⟨1, 1⟩
  | .at _ | .look _ _ _ => ⟨0, 0⟩
  | .capture _ body | .modal _ _ body | .atomic body => body.width groups
  | .back g => groups g
  | .choose _ yes no => (yes.width groups).either (no.width groups)
  | .repeated least greatest _ body => ((body.width groups).times least greatest).capped
  | .seq parts => (Expr.widthSeq groups parts).capped
  | .alt branches => (Expr.widthAlt groups branches).capped
/-- The width of expressions in a row. -/
def Expr.widthSeq (groups : Nat → Width) : List Expr → Width
  | [] => ⟨0, 0⟩
  | e :: es => (e.width groups).add (Expr.widthSeq groups es)
/-- The width of one of several expressions. -/
def Expr.widthAlt (groups : Nat → Width) : List Expr → Width
  | [] => ⟨0, 0⟩
  | [e] => e.width groups
  | e :: es => (e.width groups).either (Expr.widthAlt groups es)
end

end SchemaGuard.Pattern
