/-
  SchemaGuard — compiled validators.

  A `Validator` is a tree whose nodes know the schema pointer they were compiled
  from. Length and item bounds are kept as the schema gives them, since only a
  schema that was checked beforehand is sure to give numbers.

  * `Closedness` says what becomes of properties that an object does not declare;
  * `Validator.nodes` lists all nodes of a tree, `Validator.children` the trees
    directly below a node.
-/
import SchemaGuard.Pattern.Matcher

namespace SchemaGuard

/-- What an object node does with properties that it does not declare. -/
inductive Closedness where
  /-- leaves them out of the cleaned value -/
  | strip
  /-- keeps them as they are -/
  | passthrough
  /-- rejects the object -/
  | strict
deriving DecidableEq, Repr, Inhabited

/-- The name of a closedness mode. -/
def Closedness.name : Closedness → String
  | strip => "strip"
  | passthrough => "passthrough"
  | strict => "strict"

/-- The modes, in the order in which messages list them. -/
def Closedness.all : List Closedness := [.strip, .passthrough, .strict]

/-- What a text must satisfy. -/
structure TextRules where
  minLength : Option Value
  maxLength : Option Value
  pattern : Option Pattern
  /-- the pattern as the schema gives it -/
  patternSource : Option Value
  /-- whether it must be a UTC date-time -/
  dateTime : Bool
deriving Repr

/-- What a number must satisfy. -/
structure NumberRules where
  /-- whether it must be whole -/
  integer : Bool
  minimum : Option Number
  exclusiveMinimum : Option Number
  maximum : Option Number
  exclusiveMaximum : Option Number
deriving Repr

/-- What a list must satisfy as a whole. -/
structure ListRules where
  minItems : Option Value
  maxItems : Option Value
  uniqueItems : Bool
deriving Repr

/-- A compiled schema. -/
inductive Validator where
  /-- accepts everything -/
  | any (pointer : String)
  /-- accepts nothing -/
  | never (pointer : String)
  /-- accepts one datum -/
  | literal (pointer : String) (expected : Value)
  /-- accepts some texts -/
  | options (pointer : String) (choices : List String)
  /-- accepts what at least one branch accepts -/
  | union (pointer : String) (branches : List Validator)
  /-- accepts what both sides accept -/
  | both (pointer : String) (left right : Validator)
  /-- accepts the values of one type without rules -/
  | kind (pointer : String) (expected : String)
  /-- accepts texts -/
  | text (pointer : String) (rules : TextRules)
  /-- accepts finite numbers -/
  | number (pointer : String) (rules : NumberRules)
  /-- accepts lists and tuples whose elements `items` accepts -/
  | list (pointer : String) (items : Validator) (rules : ListRules)
  /-- accepts objects whose declared properties are accepted -/
  | object (pointer : String) (properties : List (String × Validator)) (required : List Value)
      (closedness : Closedness)
deriving Repr, Inhabited

namespace Validator

/-- The place of the schema node that a validator was compiled from. -/
def pointer : Validator → String
  | any p | never p | literal p _ | options p _ | union p _ | both p _ _ | kind p _
  | text p _ | number p _ | list p _ _ | object p _ _ _ => p

/-- The trees directly below a node. -/
def children : Validator → List Validator
  | union _ branches => branches
  | both _ left right => [left, right]
  | list _ items _ => [items]
  | object _ properties _ _ => properties.map (·.2)
  | _ => []

mutual
/-- All nodes of a tree, a node before those below it. -/
def nodes : Validator → List Validator
  | union p branches => union p branches :: nodesAll branches
  | both p left right => both p left right :: (left.nodes ++ right.nodes)
  | list p items rules => list p items rules :: items.nodes
  | object p properties required closedness =>
    object p properties required closedness :: nodesProperties properties
  | v => [v]
/-- All nodes of several trees. -/
def nodesAll : List Validator → List Validator
  | [] => []
  | v :: vs => v.nodes ++ nodesAll vs
/-- All nodes of the trees of properties. -/
def nodesProperties : List (String × Validator) → List Validator
  | [] => []
  | (_, v) :: ps => v.nodes ++ nodesProperties ps
end

end Validator

end SchemaGuard
