/-
  SchemaGuard — the rules of meta-schemas and their depth.

  * `Rule.induction`: induction over rules, with the rules in a list all at once;
  * `violations_congr`: what a rule finds in a value depends on what is found in the schemas
    deeper in the value; a `guarded` rule does not ask for a schema in its place;
  * `violationsIn_eq`: so the number of levels does not matter, if there are more than
    the depth of the value. The meta-schemas are guarded.
-/
import Mathlib.Data.List.Basic
import SchemaGuard.MetaSchema.Draft
import SchemaGuard.Proofs.Value.Json

namespace SchemaGuard

/-! ## Depth -/

namespace Value

theorem depth_le_depthItems {x : Value} {items : List Value} (h : x ∈ items) : x.depth ≤ depthItems items := by
  induction items with
  | nil => cases h
  | cons y items ih =>
    rw [depthItems]
    rcases List.mem_cons.1 h with rfl | h
    · exact Nat.le_max_left _ _
    · exact Nat.le_trans (ih h) (Nat.le_max_right _ _)

theorem depth_le_depthFields {f : Scalar × Value} {fields : Fields} (h : f ∈ fields) :
    f.2.depth ≤ depthFields fields := by
  induction fields with
  | nil => cases h
  | cons g fields ih =>
    obtain ⟨key, v⟩ := g
    rw [depthFields]
    rcases List.mem_cons.1 h with rfl | h
    · exact Nat.le_max_left _ _
    · exact Nat.le_trans (ih h) (Nat.le_max_right _ _)

theorem depth_lt_of_mem {x : Value} {items : List Value} (h : x ∈ items) : x.depth < depth (.list items) := by
  rw [depth]
  exact Nat.lt_succ_of_le (depth_le_depthItems h)

theorem depth_lt_of_mem_fields {f : Scalar × Value} {fields : Fields} (h : f ∈ fields) :
    f.2.depth < depth (.object fields) := by
  rw [depth]
  exact Nat.lt_succ_of_le (depth_le_depthFields h)

end Value

namespace Rule

/-! ## Induction -/

/-- Induction over rules: what holds of the rules without rules inside them and passes
    from those inside a rule to the rule holds of every rule. -/
@[elab_as_elim]
theorem induction {motive : Rule → Prop} (type : ∀ admitted, motive (.type admitted))
    (typeIn : ∀ options, motive (.typeIn options)) (listed : ∀ options, motive (.listed options))
    (minimum : ∀ limit exclusive, motive (.minimum limit exclusive))
    (minItems : ∀ limit, motive (.minItems limit)) (uniqueItems : motive .uniqueItems)
    (pattern : ∀ source, motive (.pattern source))
    (companion : ∀ present needed, motive (.companion present needed))
    (items : ∀ rule, motive rule → motive (.items rule))
    (properties : ∀ declared : List (String × Rule), (∀ d ∈ declared, motive d.2) → motive (.properties declared))
    (values : ∀ rule, motive rule → motive (.values rule))
    (names : ∀ rule, motive rule → motive (.names rule))
    (all : ∀ rules, (∀ rule ∈ rules, motive rule) → motive (.all rules))
    (someOf : ∀ rules, (∀ rule ∈ rules, motive rule) → motive (.someOf rules)) (schema : motive .schema) :
    ∀ rule, motive rule
  | .type admitted => type admitted
  | .typeIn options => typeIn options
  | .listed options => listed options
  | .minimum limit exclusive => minimum limit exclusive
  | .minItems limit => minItems limit
  | .uniqueItems => uniqueItems
  | .pattern source => pattern source
  | .companion present needed => companion present needed
  | .items rule => items rule (induction type typeIn listed minimum minItems uniqueItems pattern companion items
      properties values names all someOf schema rule)
  | .properties declared => properties declared fun d hd => by
    have : sizeOf d.2 < 1 + sizeOf declared := by
      have := List.sizeOf_lt_of_mem hd
      cases d; simp only [Prod.mk.sizeOf_spec] at this ⊢; omega
    exact induction type typeIn listed minimum minItems uniqueItems pattern companion items
      properties values names all someOf schema d.2
  | .values rule => values rule (induction type typeIn listed minimum minItems uniqueItems pattern companion items
      properties values names all someOf schema rule)
  | .names rule => names rule (induction type typeIn listed minimum minItems uniqueItems pattern companion items
      properties values names all someOf schema rule)
  | .all rules => all rules fun rule _ => induction type typeIn listed minimum minItems uniqueItems pattern
      companion items properties values names all someOf schema rule
  | .someOf rules => someOf rules fun rule _ => induction type typeIn listed minimum minItems uniqueItems pattern
      companion items properties values names all someOf schema rule
  | .schema => schema

/-! ## Violations of several rules -/

section
variable {types : TypeRules} {nested nested' : Value → Path → List Violation}

theorem violationsAll_eq_flatMap [CharacterNames] (rules : List Rule) (v : Value) (path : Path) :
    violationsAll types nested rules v path =
      rules.flatMap fun rule => rule.violations types nested v path := by
  induction rules with
  | nil => rw [violationsAll, List.flatMap_nil]
  | cons rule rules ih => rw [violationsAll, ih, List.flatMap_cons]

/-- The violations of the rule of a keyword by its value, if there is one. -/
def violationsNamed [CharacterNames] (types : TypeRules) (nested : Value → Path → List Violation) (d : String × Rule)
    (fields : Fields) (path : Path) : List Violation :=
  (fields.named? d.1).toList.flatMap fun v => d.2.violations types nested v (path ++ [.key d.1])

theorem violationsDeclared_eq_flatMap [CharacterNames] (declared : List (String × Rule)) (fields : Fields)
    (path : Path) :
    violationsDeclared types nested declared fields path =
      declared.flatMap fun d => violationsNamed types nested d fields path := by
  induction declared with
  | nil => rw [violationsDeclared, List.flatMap_nil]
  | cons d declared ih =>
    obtain ⟨name, rule⟩ := d
    rw [violationsDeclared, ih, List.flatMap_cons, violationsNamed]
    cases fields.named? name <;> simp

theorem followsSome_eq_any [CharacterNames] (rules : List Rule) (v : Value) (path : Path) :
    followsSome types nested rules v path =
      rules.any fun rule => (rule.violations types nested v path).isEmpty := by
  induction rules with
  | nil => rw [followsSome, List.any_nil]
  | cons rule rules ih => rw [followsSome, ih, List.any_cons]

theorem followsSome_congr [CharacterNames] {rules : List Rule} {v w : Value} {path path' : Path}
    (h : ∀ rule ∈ rules, (rule.violations types nested v path).isEmpty =
      (rule.violations types nested' w path').isEmpty) :
    followsSome types nested rules v path = followsSome types nested' rules w path' := by
  rw [Bool.eq_iff_iff, followsSome_eq_any, followsSome_eq_any, List.any_eq_true, List.any_eq_true]
  exact exists_congr fun rule => and_congr_right fun hr => by rw [h rule hr]

/-- Values of the same named types are of the same types, if both are schemas or none is. -/
theorem isOf_congr {v w : Value} (h : v.hasType types = w.hasType types) (isSchema : Bool) :
    v.isOf types isSchema = w.isOf types isSchema := by
  funext option
  cases option with
  | named name => exact congrFun h name
  | schema => rfl

/-- Whether a value is a schema matters only where schemas are one of the types. -/
theorem any_isOf_eq {options : List TypeOption} (h : .schema ∉ options) (v : Value) (isSchema isSchema' : Bool) :
    options.any (v.isOf types isSchema) = options.any (v.isOf types isSchema') := by
  induction options with
  | nil => rfl
  | cons option options ih =>
    obtain ⟨hne, hrest⟩ := not_or.1 (mt List.mem_cons.2 h)
    rw [List.any_cons, List.any_cons, ih hrest]
    cases option with
    | named name => rfl
    | schema => exact absurd rfl hne

/-! ## Guarded rules -/

mutual
/-- Whether a rule asks for schemas only below the value that it is about. -/
def guarded : Rule → Bool
  | .schema => false
  | .typeIn options => .schema ∉ options
  | .all rules | .someOf rules => guardedAll rules
  | _ => true
/-- Whether several rules are guarded. -/
def guardedAll : List Rule → Bool
  | [] => true
  | rule :: rules => rule.guarded && guardedAll rules
end

theorem guarded_of_guardedAll {rules : List Rule} (h : guardedAll rules) : ∀ rule ∈ rules, rule.guarded := by
  induction rules with
  | nil => exact nofun
  | cons rule rules ih =>
    rw [guardedAll, Bool.and_eq_true] at h
    exact List.forall_mem_cons.2 ⟨h.1, ih h.2⟩

/-- What a rule finds in a value depends on what is found in schemas deeper in it, and in the
    value itself only if the rule is not guarded. -/
theorem violations_congr [CharacterNames] (rule : Rule) {v : Value} {path : Path}
    (h : ∀ w q, w.depth < v.depth ∨ ¬ rule.guarded ∧ w.depth ≤ v.depth → nested w q = nested' w q) :
    rule.violations types nested v path = rule.violations types nested' v path := by
  induction rule using Rule.induction generalizing v path with
  | typeIn options =>
    simp only [violations]
    by_cases hschema : .schema ∈ options
    · rw [h v path (Or.inr ⟨by simpa [guarded] using hschema, Nat.le_refl _⟩)]
    · rw [any_isOf_eq hschema]
  | items rule ih =>
    cases v with
    | list elements =>
      simp only [violations]
      refine List.flatMap_congr fun e he => ih fun w q hw => h w q (Or.inl ?_)
      have hdepth := Value.depth_lt_of_mem (List.fst_mem_of_mem_zipIdx he)
      omega
    | _ => simp only [violations]
  | properties declared ih =>
    cases v with
    | object fields =>
      simp only [violations, violationsDeclared_eq_flatMap, violationsNamed]
      refine List.flatMap_congr fun d hd => List.flatMap_congr fun x hx => ih d hd fun w q hw => h w q (Or.inl ?_)
      have hdepth := Value.depth_lt_of_mem_fields (Fields.mem_of_named? (Option.mem_toList.1 hx))
      dsimp only at hdepth
      omega
    | _ => simp only [violations]
  | values rule ih =>
    cases v with
    | object fields =>
      simp only [violations]
      refine List.flatMap_congr fun f hf => ih fun w q hw => h w q (Or.inl ?_)
      have hdepth := Value.depth_lt_of_mem_fields hf
      omega
    | _ => simp only [violations]
  | names rule ih =>
    cases v with
    | object fields =>
      simp only [violations]
      refine List.flatMap_congr fun f hf => ih fun w q hw => h w q (Or.inl ?_)
      have hdepth := Value.depth_lt_of_mem_fields hf
      rw [Value.depth] at hw
      omega
    | _ => simp only [violations]
  | all rules ih =>
    simp only [violations, violationsAll_eq_flatMap]
    refine List.flatMap_congr fun rule hr => ih rule hr fun w q hw => h w q (hw.imp_right ?_)
    exact And.imp_left fun hrule hrules => hrule (guarded_of_guardedAll hrules rule hr)
  | someOf rules ih =>
    have hrules : ∀ rule ∈ rules,
        rule.violations types nested v path = rule.violations types nested' v path := fun rule hr =>
      ih rule hr fun w q hw => h w q (hw.imp_right
        (And.imp_left fun hrule hrules => hrule (guarded_of_guardedAll hrules rule hr)))
    have hsome : followsSome types nested rules v path = followsSome types nested' rules v path :=
      followsSome_congr fun rule hr => by rw [hrules rule hr]
    simp only [violations, hsome]
  | schema =>
    simp only [violations]
    exact h v path (Or.inr ⟨by simp [guarded], Nat.le_refl _⟩)
  | _ => simp only [violations]

/-- The number of levels does not matter, if there are more than the depth of the value. -/
theorem violationsIn_eq [CharacterNames] {rule : Rule} (hguarded : rule.guarded) {levels levels' : Nat} {v : Value}
    {path : Path}
    (h : v.depth < levels) (h' : v.depth < levels') :
    rule.violationsIn types levels v path = rule.violationsIn types levels' v path := by
  induction levels generalizing levels' v path with
  | zero => exact absurd h (Nat.not_lt_zero _)
  | succ levels ih =>
    cases levels' with
    | zero => exact absurd h' (Nat.not_lt_zero _)
    | succ levels' =>
      rw [violationsIn, violationsIn]
      refine violations_congr rule fun w q hw => ?_
      rcases hw with hw | ⟨hnot, -⟩
      · exact ih (by omega) (by omega)
      · exact absurd hguarded hnot

end

end Rule

/-- The meta-schemas are guarded. -/
theorem Draft.guarded_rule (draft : Draft) : draft.rule.guarded := by
  cases draft <;> decide

theorem Draft.violations_eq [CharacterNames] (draft : Draft) {v : Value} {levels : Nat} (h : v.depth < levels) :
    draft.violations v = draft.rule.violationsIn draft.types levels v [] :=
  Rule.violationsIn_eq draft.guarded_rule (Nat.lt_succ_self _) h

section
variable [CharacterNames] {d : Value} {p : String}

/-- The documents that a meta-schema admits are those without violations. -/
theorem Draft.check_eq_ok_iff_places {draft : Draft} :
    draft.check d p = .ok () ↔ (draft.sortedViolations d).map Violation.place = [] := by
  rw [Draft.check, List.map_eq_nil_iff]
  cases draft.sortedViolations d <;> simp

theorem checkSchema_eq_ok_iff_places :
    checkSchema d p = .ok (.ok ()) ↔ (schemaViolations d).map (List.map Violation.place) = .ok [] := by
  rw [checkSchema, schemaViolations]
  cases Draft.ofDocument d with
  | error f => exact iff_of_false nofun nofun
  | ok draft =>
    simp only [bind, Except.bind, pure, Except.pure, Except.map, Except.ok.injEq]
    exact Draft.check_eq_ok_iff_places

end

end SchemaGuard
