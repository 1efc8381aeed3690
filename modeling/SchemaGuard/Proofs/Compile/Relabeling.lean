/-
  SchemaGuard — maps of trees that compiling commutes with.

  Pointers and the default for undeclared properties are only written into trees and into
  refusals. So where a map of trees rewrites nothing but these (`Relabels`), compiling with
  the new pointers and default is compiling with the old ones and mapping the tree, or
  ends in the same failure at the new pointer (`compile_relabeled`). In particular a schema
  compiles alike at every pointer (`compile_append`, `exists_compile_iff`).
-/
import Mathlib.Logic.Basic
import SchemaGuard.Proofs.Compile.Shape

namespace SchemaGuard

open Validator

/-! ## Relabeled results -/

/-- A failure with `f` applied to the pointer of the node that is refused. -/
def CompileFailure.relabel (f : String → String) : CompileFailure → CompileFailure
  | refused e => refused ⟨e.problem, f e.pointer⟩
  | fault e => fault e

section
variable {α β γ δ : Type} {f : String → String}

/-- A result with `g` applied to it, or a failure with `f` applied to its pointer. -/
def relabeled (f : String → String) (g : α → β) : Except CompileFailure α → Except CompileFailure β
  | .ok a => .ok (g a)
  | .error e => .error (e.relabel f)

theorem relabeled_eq_ok_iff {g : α → β} {x : Except CompileFailure α} {b : β} :
    relabeled f g x = .ok b ↔ ∃ a, x = .ok a ∧ b = g a := by
  cases x <;> simp [relabeled, eq_comm]

theorem relabeled_id (g : α → β) (x : Except CompileFailure α) : relabeled id g x = x.map g := by
  cases x with
  | error e => cases e <;> rfl
  | ok a => rfl

theorem bind_eq_relabeled_bind {x : Except CompileFailure α} {y : Except CompileFailure γ} {g : γ → α}
    {h : δ → β} {k : α → Except CompileFailure β} {k' : γ → Except CompileFailure δ}
    (hxy : x = relabeled f g y) (hk : ∀ c, k (g c) = relabeled f h (k' c)) :
    x >>= k = relabeled f h (y >>= k') := by
  subst hxy
  cases y with
  | error e => rfl
  | ok c => exact hk c

theorem mapM_eq_relabeled {xs : List δ} {g : α → β} {k : δ → Except CompileFailure β}
    {k' : δ → Except CompileFailure α} (h : ∀ x ∈ xs, k x = relabeled f g (k' x)) :
    xs.mapM k = relabeled f (List.map g) (xs.mapM k') := by
  induction xs with
  | nil => rfl
  | cons x xs ih =>
    obtain ⟨hx, hxs⟩ := List.forall_mem_cons.1 h
    rw [List.mapM_cons, List.mapM_cons]
    exact bind_eq_relabeled_bind hx fun _ => bind_eq_relabeled_bind (ih hxs) fun _ => rfl

end

/-! ## Maps of trees -/

/-- A map of trees that applies `f` to the pointer of every node, gives object nodes that
    were compiled under `mode` the closedness that they have under `mode'`, and changes
    nothing else. -/
structure Relabels (mode mode' : Closedness) (f : String → String) (g : Validator → Validator) :
    Prop where
  append : ∀ p x, f (p ++ x) = f p ++ x
  any : ∀ p, g (.any p) = .any (f p)
  never : ∀ p, g (.never p) = .never (f p)
  literal : ∀ p v, g (.literal p v) = .literal (f p) v
  options : ∀ p choices, g (.options p choices) = .options (f p) choices
  union : ∀ p branches, g (.union p branches) = .union (f p) (branches.map g)
  both : ∀ p left right, g (.both p left right) = .both (f p) (g left) (g right)
  kind : ∀ p expected, g (.kind p expected) = .kind (f p) expected
  text : ∀ p rules, g (.text p rules) = .text (f p) rules
  number : ∀ p rules, g (.number p rules) = .number (f p) rules
  list : ∀ p items rules, g (.list p items rules) = .list (f p) (g items) rules
  object : ∀ p properties required fields,
    g (.object p properties required (closednessOf mode fields)) =
      .object (f p) (properties.map (Prod.map id g)) required (closednessOf mode' fields)

section
variable {mode mode' : Closedness} {f : String → String} {g : Validator → Validator}

theorem Relabels.map_unionOf (hg : Relabels mode mode' f g) (p : String) (Vs : List Validator) :
    unionOf (f p) (Vs.map g) = relabeled f g (unionOf p Vs) := by
  match Vs with
  | [] => rfl
  | [V] => rfl
  | V :: W :: Vs => exact congrArg Except.ok (hg.union p (V :: W :: Vs)).symm

theorem Relabels.map_intersectionOf (hg : Relabels mode mode' f g) (p : String) (Vs : List Validator) :
    g (intersectionOf p Vs) = intersectionOf (f p) (Vs.map g) := by
  cases Vs with
  | nil => exact hg.any p
  | cons V Vs =>
    rw [List.map_cons, intersectionOf, intersectionOf]
    induction Vs generalizing V with
    | nil => rfl
    | cons W Vs ih => rw [List.foldl_cons, List.map_cons, List.foldl_cons, ih, hg.both]

theorem Relabels.map_enum (hg : Relabels mode mode' f g) (values : Value) (p : String) :
    compileEnum values (f p) = relabeled f g (compileEnum values p) := by
  unfold compileEnum
  split
  · rfl
  · exact congrArg Except.ok (hg.literal p _).symm
  · split
    · exact congrArg Except.ok (hg.options p _).symm
    · simp only [relabeled, hg.union, hg.literal, List.map_map, Function.comp_def, hg.append]
  · rfl

theorem compilePattern_relabeled [CharacterNames] (source : Value) (p : String) :
    compilePattern source (f p) = relabeled f id (compilePattern source p) := by
  unfold compilePattern
  split
  · rfl
  · split
    · rfl
    · split <;> rfl

theorem Relabels.map_text [CharacterNames] (hg : Relabels mode mode' f g) (fields : Fields) (p : String) :
    compileText fields (f p) = relabeled f g (compileText fields p) := by
  unfold compileText
  rw [← hg.append]
  exact bind_eq_relabeled_bind (compilePattern_relabeled _ _) fun pattern =>
    congrArg Except.ok (hg.text p _).symm

/-! ## Nodes -/

/-- Compiling with the new pointers and default is compiling with the old ones, relabeled. -/
def RelabeledAs [CharacterNames] (mode mode' : Closedness) (f : String → String) (g : Validator → Validator)
    (node : Value) : Prop :=
  ∀ p, compileNode mode' node (f p) = relabeled f g (compileNode mode node p)

theorem Relabels.map_branches [CharacterNames] (hg : Relabels mode mode' f g) {nodes : List Value}
    (h : ∀ n ∈ nodes, RelabeledAs mode mode' f g n) (p : String) (i : Nat) :
    compileBranches mode' nodes (f p) i = relabeled f (List.map g) (compileBranches mode nodes p i) := by
  rw [compileBranches_eq_mapM, compileBranches_eq_mapM]
  refine mapM_eq_relabeled fun n hn => ?_
  rw [← hg.append, ← hg.append]
  exact h n.1 (List.fst_mem_of_mem_zipIdx hn) _

theorem Relabels.map_properties [CharacterNames] (hg : Relabels mode mode' f g) {properties : Fields}
    (h : ∀ field ∈ properties, RelabeledAs mode mode' f g field.2) (p : String) :
    compileProperties mode' properties (f p) =
      relabeled f (List.map (Prod.map id g)) (compileProperties mode properties p) := by
  induction properties with
  | nil => rw [compileProperties, compileProperties]; rfl
  | cons field properties ih =>
    obtain ⟨key, n⟩ := field
    have hchild : ∀ name, Pointer.child (f p ++ "/properties") name =
        f (Pointer.child (p ++ "/properties") name) := fun name => by
      simp only [Pointer.child, hg.append]
    rw [compileProperties, compileProperties]
    refine bind_eq_relabeled_bind (g := id) (by cases key <;> rfl) fun name => ?_
    rw [id, hchild]
    refine bind_eq_relabeled_bind (h (key, n) List.mem_cons_self _) fun V => ?_
    exact bind_eq_relabeled_bind (ih fun n hn => h n (List.mem_cons_of_mem _ hn)) fun Vs => rfl

theorem Relabels.map_union [CharacterNames] (hg : Relabels mode mode' f g) {nodes : Value}
    (h : ∀ ns, nodes = .list ns → ∀ n ∈ ns, RelabeledAs mode mode' f g n) (p : String) :
    compileUnion mode' nodes (f p) = relabeled f g (compileUnion mode nodes p) := by
  cases nodes with
  | list ns =>
    rw [compileUnion, compileUnion]
    exact bind_eq_relabeled_bind (hg.map_branches (h ns rfl) p 0) fun Vs => hg.map_unionOf p Vs
  | _ => simp only [compileUnion]; rfl

theorem Relabels.map_typed [CharacterNames] (hg : Relabels mode mode' f g) {fields : Fields}
    (h : ∀ n, sizeOf n < sizeOf fields → RelabeledAs mode mode' f g n) (type : Value) : ∀ p,
    compileTyped mode' fields type (f p) = relabeled f g (compileTyped mode fields type p) := by
  induction type with
  | list types ih =>
    intro p
    have htypes : compileTypes mode' fields types (f (p ++ "/type")) 0 =
        relabeled f (List.map g) (compileTypes mode fields types (p ++ "/type") 0) := by
      rw [compileTypes_eq_mapM, compileTypes_eq_mapM]
      refine mapM_eq_relabeled fun t ht => ?_
      rw [← hg.append, ← hg.append]
      exact ih t.1 (List.fst_mem_of_mem_zipIdx ht) _
    rw [compileTyped, compileTyped, ← hg.append]
    exact bind_eq_relabeled_bind htypes fun Vs => hg.map_unionOf _ Vs
  | tuple types => intro p; simp only [compileTyped]; rfl
  | object types => intro p; simp only [compileTyped]; rfl
  | scalar s =>
    intro p
    by_cases harray : Value.scalar s = .text "array"
    · rw [harray, compileTyped_array_eq, compileTyped_array_eq]
      split
      next => rfl
      next node hn =>
        have hlt := Fields.sizeOf_named? (Fields.given?_eq_some_iff.1 hn).1
        rw [← hg.append]
        exact bind_eq_relabeled_bind (h node hlt _) fun V => congrArg Except.ok (hg.list ..).symm
    by_cases hobject : Value.scalar s = .text "object"
    · rw [hobject, compileTyped_object_eq, compileTyped_object_eq]
      split
      next => rfl
      next declared hd =>
        refine bind_eq_relabeled_bind (hg.map_properties (fun field hfield =>
          h field.2 (Fields.sizeOf_declared hd hfield)) p) fun ps => ?_
        split
        next => exact congrArg Except.ok (hg.object ..).symm
        next => rfl
    · rw [compileTyped.eq_def, compileTyped.eq_def]
      split
      next heq => cases heq
      next => exact congrArg Except.ok (hg.any p).symm
      next => exact hg.map_text fields p
      next => exact congrArg Except.ok (hg.number ..).symm
      next => exact congrArg Except.ok (hg.number ..).symm
      next => exact congrArg Except.ok (hg.kind ..).symm
      next => exact congrArg Except.ok (hg.kind ..).symm
      next heq => exact absurd heq harray
      next heq => exact absurd heq hobject
      next => rfl

theorem Relabels.map_fields [CharacterNames] (hg : Relabels mode mode' f g) {fields : Fields}
    (h : ∀ n, sizeOf n < sizeOf fields → RelabeledAs mode mode' f g n) (p : String) :
    compileFields mode' fields (f p) = relabeled f g (compileFields mode fields p) := by
  rw [compileFields_eq, compileFields_eq]
  have hfrom := fields.reading_isFrom
  cases hr : fields.reading with
  | reference => rfl
  | literal v => exact congrArg Except.ok (hg.literal p v).symm
  | choices values => exact hg.map_enum values p
  | free => exact congrArg Except.ok (hg.any p).symm
  | typed type => exact hg.map_typed h type p
  | union keyword nodes =>
    rw [hr] at hfrom
    simp only [← hg.append]
    refine hg.map_union ?_ _
    rintro ns rfl n hn
    exact h n (Nat.lt_trans (List.sizeOf_lt_of_mem hn) (Fields.sizeOf_named?_list hfrom.2))
  | all nodes =>
    rw [hr] at hfrom
    simp only [← hg.append]
    cases nodes with
    | list ns =>
      refine bind_eq_relabeled_bind (hg.map_branches (fun n hn => ?_) _ 0) fun Vs => ?_
      · exact h n (Nat.lt_trans (List.sizeOf_lt_of_mem hn) (Fields.sizeOf_named?_list hfrom))
      · exact congrArg Except.ok (hg.map_intersectionOf _ Vs).symm
    | _ => rfl

theorem Relabels.map_node [CharacterNames] (hg : Relabels mode mode' f g) : ∀ node, RelabeledAs mode mode' f g node
  | .object fields => fun p => by
    rw [compileNode, compileNode]
    exact hg.map_fields (fun n hn => hg.map_node n) p
  | .bool true => fun p => by
    simp only [compileNode]
    exact congrArg Except.ok (hg.any p).symm
  | .bool false => fun p => by
    simp only [compileNode]
    exact congrArg Except.ok (hg.never p).symm
  | .null | .number _ | .text _ | .scalar (.bytes _) | .scalar (.date _) | .scalar (.moment _) =>
    fun p => by simp only [compileNode]; rfl
  | .list items => fun p => by simp only [compileNode]; rfl
  | .tuple items => fun p => by simp only [compileNode]; rfl
termination_by node => sizeOf node

/-- **Compiling commutes with relabeling**, whether it ends in a tree or in a failure. -/
theorem compile_relabeled [CharacterNames] (hg : Relabels mode mode' f g) (s : Value) (p : String) :
    compile s mode' (f p) = relabeled f g (compile s mode p) :=
  hg.map_node s p

end

/-! ## Other pointers -/

section
variable {s : Value} {mode : Closedness}

theorem relabels_mapPointers (mode : Closedness) (q : String) :
    Relabels mode mode (q ++ ·) (mapPointers (q ++ ·)) where
  append := fun _ _ => (String.append_assoc ..).symm
  any := fun _ => rfl
  never := fun _ => rfl
  literal := fun _ _ => rfl
  options := fun _ _ => rfl
  union := fun p branches => by rw [mapPointers, mapPointersAll_eq_map]
  both := fun _ _ _ => rfl
  kind := fun _ _ => rfl
  text := fun _ _ => rfl
  number := fun _ _ => rfl
  list := fun _ _ _ => rfl
  object := fun p properties required fields => by rw [mapPointers, mapPointersProperties_eq_map]

/-- Behind `q` a schema compiles to the same tree, or is refused for the same problem, with
    `q` before the pointers. -/
theorem compile_append [CharacterNames] (s : Value) (mode : Closedness) (q p : String) :
    compile s mode (q ++ p) = relabeled (q ++ ·) (mapPointers (q ++ ·)) (compile s mode p) :=
  compile_relabeled (relabels_mapPointers mode q) s p

/-- The tree at a pointer is that at the empty one, with the pointer before all others. -/
theorem compile_eq_ok_iff [CharacterNames] {p : String} {V : Validator} :
    compile s mode p = .ok V ↔ ∃ W, compile s mode "" = .ok W ∧ V = W.mapPointers (p ++ ·) := by
  have h := compile_append s mode p ""
  rw [String.append_empty] at h
  rw [h, relabeled_eq_ok_iff]

/-- Whether a schema compiles does not depend on where it is. -/
theorem exists_compile_iff [CharacterNames] (p q : String) :
    (∃ V, compile s mode p = .ok V) ↔ ∃ V, compile s mode q = .ok V := by
  have hbare : ∀ p, (∃ V, compile s mode p = .ok V) ↔ ∃ W, compile s mode "" = .ok W := fun p => by
    simp only [compile_eq_ok_iff (p := p)]
    exact ⟨fun ⟨_, W, hW, _⟩ => ⟨W, hW⟩, fun ⟨W, hW⟩ => ⟨_, W, hW, rfl⟩⟩
  rw [hbare p, hbare q]

end

end SchemaGuard
