/-
  SchemaGuard — matching patterns against texts.

  Matching backtracks: `Expr.run` tries the ways in which an expression matches
  at a spot, in their order, and answers the first one after which the rest of
  the work (the continuation) succeeds. A `Spot` is a place in a text, with what
  stands before it (nearest character first), what stands after it, and what the
  groups have matched so far.

  A repetition goes on for at least its least number of rounds; a further round
  is tried only if the last one of these took a character, so that the length of
  the text bounds the rounds.
-/
import SchemaGuard.Pattern.Anchors
import SchemaGuard.Pattern.Reader

namespace SchemaGuard.Pattern

/-! ## Spots -/

/-- A place in a text, with what the groups matched on the way to it. -/
structure Spot where
  /-- the characters before the place, nearest first -/
  before : List Char
  /-- the characters after the place -/
  after : List Char
  /-- the number of characters before the place -/
  offset : Nat
  /-- what groups matched, latest first -/
  groups : List (Nat × List Char)
deriving Repr

/-- What remains to be matched from a spot. -/
abbrev Continuation := Spot → Option Spot

/-- A way to match something at a spot and go on. -/
abbrev Matcher := Spot → Continuation → Option Spot

namespace Spot

/-- Goes over one character. -/
def step (s : Spot) : Option (Char × Spot) :=
  match s.after with
  | [] => none
  | c :: after => some (c, { s with before := c :: s.before, after := after, offset := s.offset + 1 })

/-- Goes back over some characters, if there are as many. -/
def back : (count : Nat) → Spot → Option Spot
  | 0, s => some s
  | count + 1, s =>
    match s.before with
    | [] => none
    | c :: before =>
      back count { s with before := before, after := c :: s.after, offset := s.offset - 1 }

/-- What a group matched last. -/
def group? (s : Spot) (group : Nat) : Option (List Char) := List.lookup group s.groups

/-- Goes over characters that agree with given ones. -/
def pass (agrees : Char → Char → Bool) : List Char → Spot → Option Spot
  | [], s => some s
  | c :: cs, s =>
    match s.step with
    | some (d, s) => if agrees c d then pass agrees cs s else none
    | none => none

end Spot

/-! ## Characters -/

/-- Whether a character belongs to a class. -/
def Category.holds (flags : Flags) (c : Category) (code : Nat) : Bool :=
  match c with
  | .digit => if flags.ascii then 48 ≤ code && code ≤ 57 else Text.isDigit code
  | .blank =>
    if flags.ascii then code == 32 || (9 ≤ code && code ≤ 13) else Text.isBlank code
  | .word => if flags.ascii then code < 128 && Text.isWord code else Text.isWord code

/-- The form of a character in which case does not show. -/
def lowerIn (flags : Flags) (code : Nat) : Nat :=
  if flags.ascii then Text.asciiLower code else Text.lower code

/-- The characters that agree with one up to case. -/
def variantsIn (flags : Flags) (code : Nat) : List Nat :=
  if flags.ascii then
    [code, Text.asciiLower code] ++ (if 97 ≤ code && code ≤ 122 then [code - 32] else [])
  else Text.caseVariants code

/-- Whether a member of a set is, or covers, a character. Where letters match whatever their case,
    they do so in all of Unicode; a set with members beyond U+FFFF is no exception here, though the
    engine that is modelled compares such members as they are. -/
def Member.holds (flags : Flags) (m : Member) (code : Nat) : Bool :=
  match m with
  | .category negated c =>
    c.holds flags (if flags.ignoreCase then lowerIn flags code else code) != negated
  | .code c =>
    if flags.ignoreCase then (variantsIn flags code).contains c || code == c else code == c
  | .range first last =>
    let inside (n : Nat) : Bool := first ≤ n && n ≤ last
    if flags.ignoreCase then (variantsIn flags code).any inside || inside code else inside code

/-- Whether two characters agree where a group is matched again. -/
def agreeIn (flags : Flags) (a b : Char) : Bool :=
  if flags.ignoreCase then lowerIn flags a.toNat == lowerIn flags b.toNat else a == b

/-- Whether a character, if there is one, belongs to a word. -/
def isWordIn (flags : Flags) : Option Char → Bool
  | some c => Category.word.holds flags c.toNat
  | none => false

/-- Whether a spot is at a place. An empty text has no boundaries, nor other places within. -/
def Place.holds (flags : Flags) (p : Place) (s : Spot) : Bool :=
  match p with
  | .textStart => s.before.isEmpty
  | .start => s.before.isEmpty || (flags.multiline && s.before.head? == some '\n')
  | .textEnd => s.after.isEmpty
  | .finish =>
    s.after.isEmpty ||
      (if flags.multiline then s.after.head? == some '\n' else s.after == ['\n'])
  | .boundary =>
    !(s.before.isEmpty && s.after.isEmpty) &&
      isWordIn flags s.before.head? != isWordIn flags s.after.head?
  | .nonBoundary =>
    !(s.before.isEmpty && s.after.isEmpty) &&
      isWordIn flags s.before.head? == isWordIn flags s.after.head?

/-! ## Repetition -/

/-- Whether one more round may be tried beyond the least number: the greatest is
    not reached, and the last such round did not start here. -/
def mayRepeat (greatest : Option Nat) (done : Nat) (last : Option Nat) (s : Spot) : Bool :=
  (match greatest with
    | none => true
    | some n => done < n) && last != some s.offset

/-- As many rounds as possible first. -/
def greedily (body : Matcher) (least : Nat) (greatest : Option Nat) :
    (rounds done : Nat) → (last : Option Nat) → Matcher
  | 0, _, _, _, _ => none
  | rounds + 1, done, last, s, next =>
    if done < least then body s fun t => greedily body least greatest rounds (done + 1) last t next
    else
      let further :=
        if mayRepeat greatest done last s then
          body s fun t => greedily body least greatest rounds (done + 1) (some s.offset) t next
        else none
      match further with
      | some t => some t
      | none => next s

/-- As few rounds as possible first. -/
def lazily (body : Matcher) (least : Nat) (greatest : Option Nat) :
    (rounds done : Nat) → (last : Option Nat) → Matcher
  | 0, _, _, _, _ => none
  | rounds + 1, done, last, s, next =>
    if done < least then body s fun t => lazily body least greatest rounds (done + 1) last t next
    else
      match next s with
      | some t => some t
      | none =>
        if mayRepeat greatest done last s then
          body s fun t => lazily body least greatest rounds (done + 1) (some s.offset) t next
        else none

/-- As many rounds as possible, each matched in the first way only. -/
def possessively (body : Matcher) (least : Nat) (greatest : Option Nat) :
    (rounds done : Nat) → (last : Option Nat) → Spot → Option Spot
  | 0, _, _, _ => none
  | rounds + 1, done, last, s =>
    if done < least then
      match body s some with
      | some t => possessively body least greatest rounds (done + 1) last t
      | none => none
    else if mayRepeat greatest done last s then
      match body s some with
      | some t => possessively body least greatest rounds (done + 1) (some s.offset) t
      | none => some s
    else some s

/-! ## Expressions -/

mutual
/-- Matches an expression at a spot and goes on. A condition on a group that is still open asks
    what the group matched in an earlier round; the engine that is modelled does so only if that
    match does not end before the place where the group was opened again. -/
def Expr.run (flags : Flags) : Expr → Matcher
  | .literal code, s, next =>
    match s.step with
    | some (c, t) => if (Member.code code).holds flags c.toNat then next t else none
    | none => none
  | .any, s, next =>
    match s.step with
    | some (c, t) => if flags.dotAll || c != '\n' then next t else none
    | none => none
  | .set negated members, s, next =>
    match s.step with
    | some (c, t) => if members.any (·.holds flags c.toNat) != negated then next t else none
    | none => none
  | .at place, s, next => if place.holds flags s then next s else none
  | .capture group body, s, next =>
    body.run flags s fun t =>
      next { t with groups := (group, s.after.take (t.offset - s.offset)) :: t.groups }
  | .modal on off body, s, next => body.run (flags.change on off) s next
  | .atomic body, s, next =>
    match body.run flags s some with
    | some t => next t
    | none => none
  | .look direction negated body, s, next =>
    let start := match direction with
      | .ahead => some s
      | .behind least _ => s.back least
    let found := match start with
      | some s => body.run flags s some
      | none => none
    match found with
    | some t => if negated then none else next { s with groups := t.groups }
    | none => if negated then next s else none
  | .back group, s, next =>
    match s.group? group with
    | some cs =>
      match s.pass (agreeIn flags) cs with
      | some t => next t
      | none => none
    | none => none
  | .choose group yes no, s, next =>
    match s.group? group with
    | some _ => yes.run flags s next
    | none => no.run flags s next
  | .repeated least greatest mode body, s, next =>
    let rounds := least + s.after.length + 2
    match mode with
    | .greedy => greedily (fun s next => body.run flags s next) least greatest rounds 0 none s next
    | .lazy => lazily (fun s next => body.run flags s next) least greatest rounds 0 none s next
    | .possessive =>
      match possessively (fun s next => body.run flags s next) least greatest rounds 0 none s with
      | some t => next t
      | none => none
  | .seq parts, s, next => Expr.runAll flags parts s next
  | .alt branches, s, next => Expr.runFirst flags branches s next
/-- Matches expressions one after the other. -/
def Expr.runAll (flags : Flags) : List Expr → Matcher
  | [], s, next => next s
  | e :: es, s, next => e.run flags s fun t => Expr.runAll flags es t next
/-- Matches the first of some expressions that leads to a match. -/
def Expr.runFirst (flags : Flags) : List Expr → Matcher
  | [], _, _ => none
  | e :: es, s, next =>
    match e.run flags s next with
    | some t => some t
    | none => Expr.runFirst flags es s next
end

/-- Whether an expression matches anywhere from a spot on. -/
def searchFrom (flags : Flags) (e : Expr) (before : List Char) (offset : Nat) :
    (after : List Char) → Bool
  | [] => (e.run flags ⟨before, [], offset, []⟩ some).isSome
  | c :: after =>
    (e.run flags ⟨before, c :: after, offset, []⟩ some).isSome ||
      searchFrom flags e (c :: before) (offset + 1) after

end Pattern

/-! ## Patterns -/

/-- A pattern that has been read. -/
structure Pattern where
  /-- the text that was read -/
  text : String
  expr : Pattern.Expr
  flags : Pattern.Flags
deriving Repr

namespace Pattern

/-- Reads a pattern. -/
def ofText [CharacterNames] (text : List Char) : Except Failure Pattern := do
  let (e, flags) ← read text
  return ⟨String.ofList text, e, flags⟩

/-- Whether a pattern matches somewhere in a text. -/
def search (p : Pattern) (text : String) : Bool := searchFrom p.flags p.expr [] 0 text.toList

end Pattern

end SchemaGuard
