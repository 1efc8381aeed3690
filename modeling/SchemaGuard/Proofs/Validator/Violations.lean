/-
  SchemaGuard — what is wrong with a value, declaratively.

  * `V.Leads v e c y`: from the tree `V` and the value `v` the edge `e` leads to the
    tree `c` below `V` and the part `y` of `v`; `V.Reaches v es W x` follows several
    edges. There are no edges through a union;
  * `W.Violates x rest finding`: the single demands of a node that a value violates;
  * `V.HasFlaw v a`: the flaw `a` is a violation by a node that `V` reaches;
  * `V.Reports v path issues`: the issues are one for each flaw, and the causes of a
    failed union are, branch after branch, what the branches report;
  * `Issue.allOf` lists issues with their causes at every depth.
-/
import SchemaGuard.Proofs.Validator.Acceptance
import SchemaGuard.Proofs.Validator.Tree

namespace SchemaGuard

/-! ## Issues at every depth -/

namespace Issue

mutual
/-- An issue and its causes, at every depth. -/
def all : Issue → List Issue
  | mk pointer path finding causes => mk pointer path finding causes :: allOf causes
/-- Issues and their causes, at every depth. -/
def allOf : List Issue → List Issue
  | [] => []
  | i :: is => i.all ++ allOf is
end

theorem mem_allOf_cons {i j : Issue} {is : List Issue} :
    i ∈ allOf (j :: is) ↔ i = j ∨ i ∈ allOf j.causes ∨ i ∈ allOf is := by
  cases j with
  | mk pointer path finding cs => simp [allOf, all, Issue.causes]

theorem allOf_append (is js : List Issue) : allOf (is ++ js) = allOf is ++ allOf js := by
  induction is with
  | nil => rfl
  | cons i is ih => rw [List.cons_append, allOf, allOf, ih, List.append_assoc]

end Issue

namespace Validator

/-! ## Nodes and the parts they see -/

/-- A way from a node to a tree below it. -/
inductive Edge where
  | property (name : String)
  | item (index : Nat)
  | left
  | right
deriving DecidableEq, Repr

/-- The steps into the instance along an edge. -/
def Edge.steps : Edge → Path
  | property name => [.key name]
  | item i => [.index i]
  | left | right => []

/-- An edge leads from a tree and a value to a tree below and a part of the value. -/
inductive Leads : Validator → Value → Edge → Validator → Value → Prop
  | left {p l r v} : Leads (.both p l r) v .left l v
  | right {p l r v} : Leads (.both p l r) v .right r v
  | item {p items rules v xs i x} : v.elements? = some xs → xs[i]? = some x →
      Leads (.list p items rules) v (.item i) items x
  | property {p properties required closedness fields name c x} : (name, c) ∈ properties →
      Fields.named? fields name = some x →
      Leads (.object p properties required closedness) (.object fields) (.property name) c x

theorem Leads.mem_children {V c : Validator} {v y : Value} {e : Edge} (h : V.Leads v e c y) :
    c ∈ V.children := by
  cases h with
  | left | right | item => simp [children]
  | property hq => exact List.mem_map_of_mem (f := Prod.snd) hq

/-- Edges lead from a tree and a value to a node and the part that it sees. -/
inductive Reaches : Validator → Value → List Edge → Validator → Value → Prop
  | here {V v} : Reaches V v [] V v
  | step {V v e c y es W x} : V.Leads v e c y → Reaches c y es W x → Reaches V v (e :: es) W x

/-! ## Violations -/

/-- A node demands something of a value that the value does not satisfy; `rest` are
    the steps from the value to the place that the finding is about. -/
inductive Violates : Validator → Value → (rest : Path) → Finding → Prop
  | nothingAllowed {p x} : Violates (.never p) x [] .nothingAllowed
  | notExpected {p expected x} : ¬ x.sameData expected →
      Violates (.literal p expected) x [] (.notExpected expected)
  | notAnOption {p choices x} : (∀ s ∈ choices, x ≠ .text s) →
      Violates (.options p choices) x [] (.notAnOption choices x)
  | noAlternative {p branches x} : (∀ b ∈ branches, ∀ o, ¬ b.Accepts x o) →
      Violates (.union p branches) x [] (.noAlternative branches.length)
  | wrongKind {p expected x} : x.kind ≠ expected →
      Violates (.kind p expected) x [] (.wrongKind expected x.kind)
  | notText {p rules x} : (∀ s, x ≠ .text s) →
      Violates (.text p rules) x [] (.wrongKind "string" x.kind)
  | tooShort {p rules s b n} : rules.minLength = some b → bound? b = some n →
      (Number.int s.length).lt n → Violates (.text p rules) (.text s) [] (.tooShort b)
  | tooLong {p rules s b n} : rules.maxLength = some b → bound? b = some n →
      n.lt (Number.int s.length) → Violates (.text p rules) (.text s) [] (.tooLong b)
  | patternMismatch {p rules s pattern} : rules.pattern = some pattern → ¬ pattern.search s →
      Violates (.text p rules) (.text s) [] (.patternMismatch (rules.patternSource.getD .null))
  | notDateTime {p rules s} : rules.dateTime → ¬ Timestamp.isDateTime s →
      Violates (.text p rules) (.text s) [] .notDateTime
  | notNumber {p rules x} : isFiniteNumber x ≠ .ok true →
      Violates (.number p rules) x [] (.wrongKind (if rules.integer then "integer" else "number") x.kind)
  | fractional {p rules n} : isFiniteNumber (.number n) = .ok true → rules.integer → ¬ n.isWhole →
      Violates (.number p rules) (.number n) [] .fractional
  | belowMinimum {p rules n b} : isFiniteNumber (.number n) = .ok true → rules.minimum = some b →
      n.lt b → Violates (.number p rules) (.number n) [] (.belowMinimum b)
  | notAboveMinimum {p rules n b} : isFiniteNumber (.number n) = .ok true →
      rules.exclusiveMinimum = some b → n.le b →
      Violates (.number p rules) (.number n) [] (.notAboveMinimum b)
  | aboveMaximum {p rules n b} : isFiniteNumber (.number n) = .ok true → rules.maximum = some b →
      b.lt n → Violates (.number p rules) (.number n) [] (.aboveMaximum b)
  | notBelowMaximum {p rules n b} : isFiniteNumber (.number n) = .ok true →
      rules.exclusiveMaximum = some b → b.le n →
      Violates (.number p rules) (.number n) [] (.notBelowMaximum b)
  | notArray {p items rules x} : x.elements? = none →
      Violates (.list p items rules) x [] (.wrongKind "array" x.kind)
  | tooFewItems {p items rules x xs b n} : x.elements? = some xs → rules.minItems = some b →
      bound? b = some n → (Number.int xs.length).lt n →
      Violates (.list p items rules) x [] (.tooFewItems b)
  | tooManyItems {p items rules x xs b n} : x.elements? = some xs → rules.maxItems = some b →
      bound? b = some n → n.lt (Number.int xs.length) →
      Violates (.list p items rules) x [] (.tooManyItems b)
  | repeatedItem {p items rules x xs i j y z} : x.elements? = some xs → rules.uniqueItems → i < j →
      xs[i]? = some y → xs[j]? = some z → z.sameData y →
      Violates (.list p items rules) x [.index j] .repeatedItem
  | notObject {p properties required closedness x} : (∀ fields, x ≠ .object fields) →
      Violates (.object p properties required closedness) x [] (.wrongKind "object" x.kind)
  | missing {p properties required closedness fields name c} : (name, c) ∈ properties →
      .text name ∈ required → Fields.named? fields name = none →
      Violates (.object p properties required closedness) (.object fields) [.key name] .missing
  | unknownKeys {p properties required fields} : undeclared properties fields ≠ [] →
      Violates (.object p properties required .strict) (.object fields) []
        (.unknownKeys (undeclared properties fields).keys)

/-- A violation, by the edges to the node that demands something, the steps from
    what the node sees to the place, and what is found there. -/
structure Flaw where
  edges : List Edge
  rest : Path
  finding : Finding
deriving DecidableEq, Repr

namespace Flaw

/-- The place of a flaw in the instance. -/
def path (a : Flaw) : Path := a.edges.flatMap Edge.steps ++ a.rest

/-- The flaw of a tree below, as one of the tree above. -/
def under (e : Edge) (a : Flaw) : Flaw := { a with edges := e :: a.edges }

/-- The flaw that a node itself finds. -/
def own (f : Path × Finding) : Flaw := ⟨[], f.1, f.2⟩

theorem path_under (e : Edge) (a : Flaw) : (a.under e).path = e.steps ++ a.path := by
  simp [path, under]

theorem under_injective (e : Edge) : Function.Injective (under e) := by
  rintro ⟨es, rest, f⟩ ⟨es', rest', f'⟩ h
  simpa [under] using h

theorem own_injective : Function.Injective own := by
  rintro ⟨rest, f⟩ ⟨rest', f'⟩ h
  simpa [own] using h

end Flaw

/-- A value has a flaw if a node that the edges of the flaw reach is violated. -/
def HasFlaw (V : Validator) (v : Value) (a : Flaw) : Prop :=
  ∃ W x, V.Reaches v a.edges W x ∧ W.Violates x a.rest a.finding

/-! ## Reports -/

mutual
/-- The issues are one for each flaw, in some order. -/
inductive Reports : Validator → Value → Path → List Issue → Prop
  | intro {V v path issues} (found : List Flaw) : found.Nodup → (∀ a, a ∈ found ↔ V.HasFlaw v a) →
      ReportsEach V v path found issues → Reports V v path issues
/-- The issues are those of the flaws: each has the pointer of the violated node, the
    place of the flaw and its finding; the causes of a failed union are what its
    branches report, and no other issue has causes. -/
inductive ReportsEach : Validator → Value → Path → List Flaw → List Issue → Prop
  | nil {V v path} : ReportsEach V v path [] []
  | plain {V v path a W x found issues} : V.Reaches v a.edges W x → W.Violates x a.rest a.finding →
      ¬ W.isUnion → ReportsEach V v path found issues →
      ReportsEach V v path (a :: found) (.mk W.pointer (path ++ a.path) a.finding [] :: issues)
  | union {V v path a p branches x causes found issues} : V.Reaches v a.edges (.union p branches) x →
      (Validator.union p branches).Violates x a.rest a.finding →
      ReportsBranches branches x (path ++ a.path) causes → ReportsEach V v path found issues →
      ReportsEach V v path (a :: found) (.mk p (path ++ a.path) a.finding causes :: issues)
/-- The causes are what the branches report, in their order; every branch reports
    something. -/
inductive ReportsBranches : List Validator → Value → Path → List Issue → Prop
  | nil {x path} : ReportsBranches [] x path []
  | cons {b bs x path issues causes} : Reports b x path issues → issues ≠ [] →
      ReportsBranches bs x path causes → ReportsBranches (b :: bs) x path (issues ++ causes)
end

end Validator

end SchemaGuard
