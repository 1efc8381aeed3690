/-
  SchemaGuard — induction over validators and conditions on all their nodes.

  `V.Throughout P` says that all nodes of a tree have the property `P`. The
  conditions on trees that results about checking depend on are of this form:

  * `DistinctNames`: no object node declares a name twice;
  * `UnionFree`, `RepeatFree`: there are no unions; no list asks for unique items;
  * `NumericSizes`: length and item bounds are numbers, `NumericSizesInUnions`:
    those inside unions are;
  * `Keeping`: no object node takes out undeclared properties.
-/
import Mathlib.Logic.Basic
import SchemaGuard.Validator.Check

namespace SchemaGuard

namespace Validator

/-- Induction over validators: what holds of the nodes without trees below them
    and passes from those trees to a node holds of every validator. -/
@[elab_as_elim, induction_eliminator]
theorem induction {motive : Validator → Prop} (any : ∀ p, motive (.any p))
    (never : ∀ p, motive (.never p)) (literal : ∀ p expected, motive (.literal p expected))
    (options : ∀ p choices, motive (.options p choices))
    (union : ∀ p branches, (∀ b ∈ branches, motive b) → motive (.union p branches))
    (both : ∀ p left right, motive left → motive right → motive (.both p left right))
    (kind : ∀ p expected, motive (.kind p expected)) (text : ∀ p rules, motive (.text p rules))
    (number : ∀ p rules, motive (.number p rules))
    (list : ∀ p items rules, motive items → motive (.list p items rules))
    (object : ∀ p properties required closedness, (∀ q ∈ properties, motive q.2) →
      motive (.object p properties required closedness)) :
    ∀ V, motive V
  | .any p => any p
  | .never p => never p
  | .literal p expected => literal p expected
  | .options p choices => options p choices
  | .union p branches => union p branches fun b _ =>
    induction any never literal options union both kind text number list object b
  | .both p left right => both p left right
    (induction any never literal options union both kind text number list object left)
    (induction any never literal options union both kind text number list object right)
  | .kind p expected => kind p expected
  | .text p rules => text p rules
  | .number p rules => number p rules
  | .list p items rules => list p items rules
    (induction any never literal options union both kind text number list object items)
  | .object p properties required closedness => object p properties required closedness fun q hq => by
    have : sizeOf q.2 < 1 + sizeOf p + sizeOf properties + sizeOf required + sizeOf closedness := by
      have := List.sizeOf_lt_of_mem hq
      cases q; simp only [Prod.mk.sizeOf_spec] at this ⊢; omega
    exact induction any never literal options union both kind text number list object q.2

/-! ## Nodes -/

theorem mem_nodesAll {W : Validator} : ∀ {vs : List Validator},
    W ∈ nodesAll vs ↔ ∃ v ∈ vs, W ∈ v.nodes
  | [] => by simp [nodesAll]
  | v :: vs => by simp [nodesAll, @mem_nodesAll W vs]

theorem mem_nodesProperties {W : Validator} : ∀ {ps : List (String × Validator)},
    W ∈ nodesProperties ps ↔ ∃ p ∈ ps, W ∈ p.2.nodes
  | [] => by simp [nodesProperties]
  | (name, v) :: ps => by simp [nodesProperties, @mem_nodesProperties W ps]

/-- The nodes of a tree are its root and the nodes of the trees below the root. -/
theorem mem_nodes_iff {V W : Validator} : W ∈ V.nodes ↔ W = V ∨ ∃ c ∈ V.children, W ∈ c.nodes := by
  cases V with
  | union p branches => simp [nodes, children, mem_nodesAll]
  | both p left right => simp [nodes, children]
  | list p items rules => simp [nodes, children]
  | object p properties required closedness =>
    simp only [nodes, children, List.mem_cons, mem_nodesProperties, List.mem_map,
      exists_exists_and_eq_and]
  | _ => simp [nodes, children]

theorem self_mem_nodes (V : Validator) : V ∈ V.nodes := mem_nodes_iff.2 (Or.inl rfl)

/-- Induction that does not look at the kind of a node. -/
theorem induction_children {motive : Validator → Prop}
    (node : ∀ V, (∀ c ∈ V.children, motive c) → motive V) (V : Validator) : motive V := by
  induction V with
  | union p branches ih => exact node _ ih
  | both p left right ihl ihr => exact node _ (by simpa [children] using ⟨ihl, ihr⟩)
  | list p items rules ih => exact node _ (by simpa [children] using ih)
  | object p properties required closedness ih =>
    exact node _ fun c hc => by
      obtain ⟨q, hq, rfl⟩ := List.mem_map.1 hc
      exact ih q hq
  | _ => exact node _ nofun

/-- The nodes of a tree inside a tree are nodes of the whole. -/
theorem nodes_subset_of_mem_nodes {V W : Validator} (h : W ∈ V.nodes) : W.nodes ⊆ V.nodes := by
  induction V using induction_children with
  | node V ih =>
    rcases mem_nodes_iff.1 h with rfl | ⟨c, hc, h⟩
    · exact List.Subset.refl _
    · exact fun U hU => mem_nodes_iff.2 (Or.inr ⟨c, hc, ih c hc h hU⟩)

/-- All nodes of a tree have a property. -/
def Throughout (P : Validator → Prop) (V : Validator) : Prop := ∀ W ∈ V.nodes, P W

instance {P : Validator → Prop} [DecidablePred P] (V : Validator) : Decidable (V.Throughout P) :=
  inferInstanceAs (Decidable (∀ W ∈ V.nodes, P W))

section
variable {P Q : Validator → Prop} {V : Validator}

theorem throughout_iff : V.Throughout P ↔ P V ∧ ∀ c ∈ V.children, c.Throughout P := by
  simp only [Throughout, mem_nodes_iff (V := V), forall_eq_or_imp]
  exact and_congr_right fun _ =>
    ⟨fun h c hc W hW => h W ⟨c, hc, hW⟩, fun h W ⟨c, hc, hW⟩ => h c hc W hW⟩

theorem Throughout.self (h : V.Throughout P) : P V := (throughout_iff.1 h).1

theorem Throughout.child (h : V.Throughout P) {c : Validator} (hc : c ∈ V.children) :
    c.Throughout P := (throughout_iff.1 h).2 c hc

theorem Throughout.of_mem_nodes (h : V.Throughout P) {W : Validator} (hW : W ∈ V.nodes) :
    W.Throughout P := fun _ hU => h _ (nodes_subset_of_mem_nodes hW hU)

theorem Throughout.imp (h : V.Throughout P) (hPQ : ∀ W, P W → Q W) : V.Throughout Q :=
  fun W hW => hPQ W (h W hW)

end

/-! ## Conditions on trees -/

/-- The names that an object node declares. -/
def names : Validator → List String
  | object _ properties _ _ => properties.map (·.1)
  | _ => []

/-- The length and item bounds of a node. -/
def sizeBounds : Validator → List Value
  | text _ rules => rules.minLength.toList ++ rules.maxLength.toList
  | list _ _ rules => rules.minItems.toList ++ rules.maxItems.toList
  | _ => []

/-- Whether a node is a union. -/
def isUnion : Validator → Bool
  | union _ _ => true
  | _ => false

/-- Whether a node asks for unique items. -/
def forbidsRepeats : Validator → Bool
  | list _ _ rules => rules.uniqueItems
  | _ => false

/-- Whether a node takes out undeclared properties. -/
def strips : Validator → Bool
  | object _ _ _ closedness => closedness == .strip
  | _ => false

def DistinctNames (V : Validator) : Prop := V.Throughout fun W => W.names.Nodup

def UnionFree (V : Validator) : Prop := V.Throughout fun W => ¬ W.isUnion

def RepeatFree (V : Validator) : Prop := V.Throughout fun W => ¬ W.forbidsRepeats

def NumericSizes (V : Validator) : Prop := V.Throughout fun W => ∀ b ∈ W.sizeBounds, (bound? b).isSome

instance (V : Validator) : Decidable V.NumericSizes := by unfold NumericSizes; infer_instance

def NumericSizesInUnions (V : Validator) : Prop := V.Throughout fun W => W.isUnion → W.NumericSizes

def Keeping (V : Validator) : Prop := V.Throughout fun W => ¬ W.strips

instance (V : Validator) : Decidable V.DistinctNames := by unfold DistinctNames; infer_instance
instance (V : Validator) : Decidable V.UnionFree := by unfold UnionFree; infer_instance
instance (V : Validator) : Decidable V.RepeatFree := by unfold RepeatFree; infer_instance
instance (V : Validator) : Decidable V.NumericSizesInUnions := by
  unfold NumericSizesInUnions; infer_instance
instance (V : Validator) : Decidable V.Keeping := by unfold Keeping; infer_instance

theorem NumericSizes.inUnions {V : Validator} (h : V.NumericSizes) : V.NumericSizesInUnions := by
  exact fun W hW _ => h.of_mem_nodes hW

end Validator

end SchemaGuard
