/-
  SchemaGuard — meta-schemas do not look at vendor keywords.

  * `rule.tolerates known role`: the rule asks, of what has this role, for nothing that keywords
    which are not known can change; the meta-schemas tolerate vendor keywords
    (`Draft.tolerates_rule`);
  * `samePaths_violations`: what such a rule finds stands at the same paths in two documents
    of which one has such a keyword more.

  Main result: `schemaViolations_extended`.
-/
import SchemaGuard.Proofs.MetaSchema.Rules
import SchemaGuard.Proofs.Schema.Extension

namespace SchemaGuard

/-! ## Violations at the same paths -/

/-- Violations that stand, one by one, at the same paths. -/
def SamePaths (xs ys : List Violation) : Prop := xs.map Violation.path = ys.map Violation.path

section
variable {xs ys : List Violation}

theorem SamePaths.isEmpty_eq (h : SamePaths xs ys) : xs.isEmpty = ys.isEmpty := by
  unfold SamePaths at h
  cases xs <;> cases ys <;> first | rfl | cases h

theorem SamePaths.flatMap {α β : Type} {R : α → β → Prop} {as : List α} {bs : List β}
    (h : List.Forall₂ R as bs) {f : α → List Violation} {g : β → List Violation}
    (hfg : ∀ a b, R a b → SamePaths (f a) (g b)) : SamePaths (as.flatMap f) (bs.flatMap g) := by
  unfold SamePaths at hfg ⊢
  induction h with
  | nil => rfl
  | cons hab _ ih => rw [List.flatMap_cons, List.flatMap_cons, List.map_append, List.map_append, hfg _ _ hab, ih]

theorem SamePaths.flatMap_congr {α : Type} {as : List α} {f g : α → List Violation}
    (h : ∀ a ∈ as, SamePaths (f a) (g a)) : SamePaths (as.flatMap f) (as.flatMap g) :=
  .flatMap (R := fun a b => a = b ∧ a ∈ as) (List.forall₂_same.2 fun _ ha => ⟨rfl, ha⟩)
    fun a _ hab => hab.1 ▸ h a hab.2

theorem forall₂_zipIdx {α β : Type} {R : α → β → Prop} {as : List α} {bs : List β} (h : List.Forall₂ R as bs)
    (i : Nat) : List.Forall₂ (fun a b => R a.1 b.1 ∧ a.2 = b.2) (as.zipIdx i) (bs.zipIdx i) := by
  induction h generalizing i with
  | nil => exact .nil
  | cons hab _ ih => exact .cons ⟨hab, rfl⟩ (ih (i + 1))

/-- Sorting by paths does not look at anything else. -/
theorem SamePaths.mergeSort (h : SamePaths xs ys) :
    SamePaths (xs.mergeSort placeLe) (ys.mergeSort placeLe) := by
  have hsort : ∀ xs : List Violation, (xs.mergeSort placeLe).map Violation.path =
      (xs.map Violation.path).mergeSort fun a b => !List.lex (b.map Step.token) (a.map Step.token) :=
    fun xs => List.map_mergeSort fun _ _ _ _ => rfl
  unfold SamePaths at h ⊢
  rw [hsort, hsort, h]

end

/-! ## Rules that vendor keywords do not concern -/

namespace Rule

section
variable (known : List String)

mutual
/-- Whether a rule asks, of what has a role, for nothing that keywords which are not known can change. -/
def tolerates : Rule → Role → Bool
  | .type _, _ | .listed _, _ | .minimum _ _, _ | .minItems _, _ | .pattern _, _ => true
  | .typeIn options, role => .schema ∉ options || role == .schema
  | .uniqueItems, role => role != .schemas
  | .companion present needed, role =>
    role == .schema && known.contains present && known.contains needed
  | .items rule, role => role != .schemas || rule.tolerates .schema
  | .properties declared, role => role == .schema && toleratesDeclared declared
  | .values rule, role => role == .schemas || (role == .declarations && rule.tolerates .schema)
  | .names _, _ => false
  | .all rules, role | .someOf rules, role => toleratesAll rules role
  | .schema, role => role == .schema
/-- Whether none of several rules asks for that. -/
def toleratesAll : List Rule → Role → Bool
  | [], _ => true
  | rule :: rules, role => rule.tolerates role && toleratesAll rules role
/-- Whether the rules of the properties of a schema do not ask for that, each of what stands there. -/
def toleratesDeclared : List (String × Rule) → Bool
  | [] => true
  | (name, rule) :: declared =>
    known.contains name && (Role.ofKeyword name == .data || rule.tolerates (Role.ofKeyword name)) &&
      toleratesDeclared declared
end

end

variable {known : List String}

theorem tolerates_of_all {rules : List Rule} {role : Role} (h : toleratesAll known rules role) :
    ∀ rule ∈ rules, rule.tolerates known role := by
  induction rules with
  | nil => exact nofun
  | cons rule rules ih =>
    rw [toleratesAll, Bool.and_eq_true] at h
    exact List.forall_mem_cons.2 ⟨h.1, ih h.2⟩

theorem tolerates_of_declared {declared : List (String × Rule)} (h : toleratesDeclared known declared) :
    ∀ d ∈ declared, d.1 ∈ known ∧ (Role.ofKeyword d.1 = .data ∨ d.2.tolerates known (Role.ofKeyword d.1)) := by
  induction declared with
  | nil => exact nofun
  | cons d declared ih =>
    rw [toleratesDeclared, Bool.and_eq_true, Bool.and_eq_true, List.contains_iff_mem, Bool.or_eq_true,
      beq_iff_eq] at h
    exact List.forall_mem_cons.2 ⟨h.1, ih h.2⟩

section
variable {types : TypeRules} {nested : Value → Path → List Violation} {role : Role} {v w : Value} {path : Path}

theorem samePaths_violationIf {violated violated' : Bool} {breach : Breach} (h : violated = violated') :
    SamePaths (violationIf violated path v breach) (violationIf violated' path w breach) := by
  subst h
  cases violated <;> rfl

theorem hasType_eq_of_corresponds (h : Corresponds known role v w) (name : String) : v.hasType types name = w.hasType types name := by
  cases h with
  | same => rfl
  | schema | schemas | declarations => unfold Value.hasType; split <;> simp_all

/-- **What a rule finds stands at the same paths** in two documents of which one has a keyword
    more, if the rule tolerates such keywords, and what is found in schemas does. -/
theorem samePaths_violations [CharacterNames]
    (hnested : ∀ v w path, Extended known .schema v w → SamePaths (nested v path) (nested w path)) {rule : Rule}
    (hrule : rule.tolerates known role) (h : Extended known role v w) :
    SamePaths (rule.violations types nested v path) (rule.violations types nested w path) := by
  induction rule using Rule.induction generalizing role v w path with
  | type admitted =>
    simp only [violations]
    have htypes : v.hasType types = w.hasType types := funext (hasType_eq_of_corresponds h.corresponds)
    exact samePaths_violationIf (by rw [htypes])
  | typeIn options =>
    simp only [violations]
    have htypes : v.hasType types = w.hasType types := funext (hasType_eq_of_corresponds h.corresponds)
    have hisOf : ∀ isSchema, v.isOf types isSchema = w.isOf types isSchema := isOf_congr htypes
    refine samePaths_violationIf ?_
    rw [tolerates, Bool.or_eq_true, decide_eq_true_eq, beq_iff_eq] at hrule
    rcases hrule with hnone | rfl
    · rw [hisOf, any_isOf_eq hnone]
    · rw [hisOf, (hnested v w path h).isEmpty_eq]
  | listed options =>
    simp only [violations]
    refine samePaths_violationIf ?_
    cases h.corresponds <;> rfl
  | minimum limit exclusive => cases h.corresponds <;> rfl
  | minItems limit =>
    cases h.corresponds with
    | schemas hlist =>
      simp only [violations]
      exact samePaths_violationIf (by rw [hlist.length_eq])
    | _ => rfl
  | uniqueItems =>
    cases h.corresponds with
    | schemas hlist => cases hrule
    | _ => rfl
  | pattern source => cases h.corresponds <;> rfl
  | companion present needed =>
    cases h.corresponds with
    | same => rfl
    | schema hfields =>
      simp only [tolerates, Bool.and_eq_true, List.contains_iff_mem] at hrule
      simp only [violations]
      exact samePaths_violationIf (by rw [hfields.has_eq hrule.1.2, hfields.has_eq hrule.2])
    | _ => cases hrule
  | items rule ih =>
    cases h.corresponds with
    | schemas hlist =>
      simp only [violations]
      refine SamePaths.flatMap (forall₂_zipIdx hlist 0) fun a b hab => ?_
      rw [hab.2]
      exact ih hrule hab.1
    | _ => rfl
  | properties declared ih =>
    cases h.corresponds with
    | same => rfl
    | @schema fields fields' hfields =>
      rw [tolerates, Bool.and_eq_true] at hrule
      simp only [violations, violationsDeclared_eq_flatMap, violationsNamed]
      refine SamePaths.flatMap_congr fun d hd => ?_
      obtain ⟨hknown, hdata | htolerates⟩ := tolerates_of_declared hrule.2 d hd
      · rw [hfields.named?_eq hknown hdata]
        rfl
      · have hrel := hfields d.1 hknown
        generalize Fields.named? fields d.1 = o, Fields.named? fields' d.1 = o' at hrel ⊢
        cases hrel with
        | none => rfl
        | some hxy =>
          simp only [Option.toList_some, List.flatMap_singleton]
          exact ih d hd htolerates hxy
    | _ => cases hrule
  | values rule ih =>
    cases h.corresponds with
    | declarations hdeclared =>
      simp only [violations]
      refine SamePaths.flatMap hdeclared fun f g hfg => ?_
      rw [hfg.1]
      exact ih hrule hfg.2
    | schema hfields => cases hrule
    | _ => rfl
  | names rule ih =>
    cases h.corresponds with
    | same => rfl
    | _ => cases hrule
  | all rules ih =>
    simp only [violations, violationsAll_eq_flatMap]
    exact SamePaths.flatMap_congr fun rule hr => ih rule hr (tolerates_of_all hrule rule hr) h
  | someOf rules ih =>
    simp only [violations]
    refine samePaths_violationIf (congrArg _ (followsSome_congr fun rule hr => ?_))
    have hpaths : SamePaths (rule.violations types nested v path) (rule.violations types nested w path) :=
      ih rule hr (tolerates_of_all hrule rule hr) h
    exact hpaths.isEmpty_eq
  | schema =>
    cases h.corresponds with
    | same => rfl
    | schema hfields =>
      simp only [violations]
      exact hnested _ _ _ h
    | _ => cases hrule

theorem samePaths_violationsIn [CharacterNames] {rule : Rule} (hrule : rule.tolerates known .schema)
    (levels : Nat) (h : Extended known .schema v w) :
    SamePaths (rule.violationsIn types levels v path) (rule.violationsIn types levels w path) := by
  induction levels generalizing v w path with
  | zero => rfl
  | succ levels ih =>
    rw [violationsIn, violationsIn]
    have hnested : ∀ v w path, Extended known .schema v w →
        SamePaths (rule.violationsIn types levels v path) (rule.violationsIn types levels w path) :=
      fun _ _ _ h => ih h
    exact samePaths_violations hnested hrule h

end

end Rule

/-! ## Documents -/

/-- The meta-schemas tolerate vendor keywords. -/
theorem Draft.tolerates_rule (draft : Draft) : draft.rule.tolerates draft.knownNames .schema := by
  cases draft <;> decide +kernel

section
variable {v w : Value}

theorem Draft.samePaths_violations [CharacterNames] (draft : Draft) (h : Extended draft.knownNames .schema v w) :
    SamePaths (draft.violations v) (draft.violations w) := by
  rw [draft.violations_eq (Nat.lt_succ_of_le (Nat.le_max_left v.depth w.depth)),
    draft.violations_eq (Nat.lt_succ_of_le (Nat.le_max_right v.depth w.depth))]
  exact Rule.samePaths_violationsIn draft.tolerates_rule _ h

/-- Documents that differ in a vendor keyword are of one dialect. -/
theorem Draft.ofDocument_extended (h : Extended Draft.commonNames .schema v w) :
    Draft.ofDocument w = Draft.ofDocument v := by
  cases h.corresponds with
  | same => rfl
  | schema hfields =>
    have hdialect : "$schema" ∈ Draft.commonNames := by decide +kernel
    simp only [Draft.ofDocument]
    rw [hfields.named?_eq hdialect (by decide)]

/-- **Violations stand at the same paths** in documents that differ in a vendor keyword. -/
theorem schemaViolations_extended [CharacterNames] (h : Extended v.knownNames .schema v w) :
    (schemaViolations v).map (List.map Violation.path) = (schemaViolations w).map (List.map Violation.path) := by
  unfold schemaViolations
  rw [Draft.ofDocument_extended (h.mono v.commonNames_subset)]
  unfold Value.knownNames at h
  cases hdraft : Draft.ofDocument v with
  | error f => rfl
  | ok draft =>
    rw [hdraft] at h
    exact congrArg Except.ok (draft.samePaths_violations h).mergeSort

end

end SchemaGuard
