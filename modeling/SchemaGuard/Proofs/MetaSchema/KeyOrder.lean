/-
  SchemaGuard — meta-schemas and the order of fields.

  * `alikeAtPaths_violations`: what a rule finds in two reordered documents is the same at each
    path, if its demands on property names are that they are texts. Only the rule for all
    properties of an object goes through them in their order, each at a path of its own;
  * `alikeAtPaths_violationsIn`: so for schemas inside schemas, by induction on the levels.

  Main result: `schemaViolations_reordered`. Documents that differ in the order of fields have
  the same violations, one by one, in the same order.
-/
import Mathlib
import SchemaGuard.Proofs.MetaSchema.Locations
import SchemaGuard.Proofs.MetaSchema.Repeats
import SchemaGuard.Proofs.MetaSchema.Sorting
import SchemaGuard.Proofs.MetaSchema.Tolerance

namespace SchemaGuard

/-! ## Fields that are found one by one -/

/-- If only the field with one key counts, all fields together come to what this field does. -/
theorem Fields.flatMap_eq_of_key {β : Type} {fields : Fields} (hnodup : fields.keys.Nodup) {k : Scalar}
    {f : Scalar × Value → List β} (h : ∀ e ∈ fields, e.1 ≠ k → f e = []) :
    fields.flatMap f = (List.lookup k fields).toList.flatMap fun v => f (k, v) := by
  induction fields with
  | nil => rfl
  | cons e fields ih =>
    obtain ⟨key, v⟩ := e
    rw [Fields.keys, List.map_cons, List.nodup_cons] at hnodup
    obtain ⟨hnew, hnodup⟩ := hnodup
    rw [List.forall_mem_cons] at h
    rw [List.flatMap_cons, ih hnodup h.2]
    by_cases hk : key = k
    · subst hk
      have hnone : List.lookup key fields = none :=
        Option.not_isSome_iff_eq_none.1 (mt Fields.lookup_isSome_iff.1 hnew)
      simp [hnone]
    · rw [h.1 hk, List.lookup_cons, beq_false_of_ne (Ne.symm hk)]
      rfl

/-! ## Rules -/

namespace Rule

section
variable {types : TypeRules} {nested : Value → Path → List Violation} {v w : Value} {path : Path}

theorem alikeAtPaths_violationIf {violated violated' : Bool} {breach : Breach} (h : violated = violated')
    (hvw : v.Reordered w) :
    AlikeAtPaths (violationIf violated path v breach) (violationIf violated' path w breach) := by
  subst h
  cases violated with
  | false => exact .nil
  | true => exact .singleton ⟨rfl, rfl, hvw.alike⟩

theorem hasType_eq_of_reordered (h : v.Reordered w) (name : String) : v.hasType types name = w.hasType types name := by
  cases h.rearrangement with
  | scalar => rfl
  | list | object => unfold Value.hasType; split <;> simp_all

/-- What is found in the value of a property stands below its key. -/
theorem key_eq_of_within {fields : Fields} (hfields : (Value.object fields).IsJson) {f : Scalar × Value}
    (hf : f ∈ fields) {x : Violation} (hx : x.Within f.2 (path ++ [stepTo f.1])) :
    f.1 = .text ((x.path[path.length]?).elim "" Step.token) := by
  obtain ⟨rest, hpath, -⟩ := hx
  have htext := (Value.isJson_object.1 hfields).2.1 f.1 (List.mem_map_of_mem hf)
  cases hkey : f.1 with
  | text name => simp [hpath, hkey, stepTo, Scalar.shown, Step.token]
  | _ => rw [hkey] at htext; cases htext

/-- A rule for all properties finds the same at each path if the rule for one of them does. The path
    tells the property by its key. -/
theorem alikeAtPaths_values [CharacterNames] {rule : Rule}
    (hwithin : ∀ (y : Value) q, y.IsJson → ∀ x ∈ rule.violations types nested y q, x.Within y q)
    (hrule : ∀ y z q, Value.Reordered y z →
      AlikeAtPaths (rule.violations types nested y q) (rule.violations types nested z q))
    {fs gs : Fields} (h : (Value.object fs).Reordered (.object gs)) :
    AlikeAtPaths ((Rule.values rule).violations types nested (.object fs) path)
      ((Rule.values rule).violations types nested (.object gs) path) := by
  intro q
  let k : Scalar := .text ((q[path.length]?).elim "" Step.token)
  have hk : ∀ fields, (Value.object fields).IsJson → ∀ f ∈ fields, f.1 ≠ k →
      atPath q (rule.violations types nested f.2 (path ++ [stepTo f.1])) = [] := by
    intro fields hfields f hf hne
    refine List.eq_nil_iff_forall_not_mem.2 fun x hx => hne ?_
    obtain ⟨hfound, rfl⟩ := mem_atPath.1 hx
    have hjson : f.2.IsJson := (Value.isJson_object.1 hfields).2.2 f hf
    exact key_eq_of_within hfields hf (hwithin _ _ hjson x hfound)
  simp only [violations, atPath_flatMap]
  cases h.rearrangement with
  | object hnodup hkeys hlookup =>
    rw [Fields.flatMap_eq_of_key hnodup (hk fs h.left),
      Fields.flatMap_eq_of_key (hkeys.nodup_iff.1 hnodup) (hk gs h.right)]
    have hvalues := hlookup k
    generalize List.lookup k fs = o, List.lookup k gs = o' at hvalues
    cases hvalues with
    | none => exact .nil
    | some hxy =>
      simp only [Option.toList_some, List.flatMap_singleton]
      exact hrule _ _ _ hxy q

/-- **What a rule finds is the same at each path** in two reordered documents, if what is found in
    schemas is, and if what is found in the value of a property stands below its key. -/
theorem alikeAtPaths_violations [CharacterNames]
    (hnested : ∀ v w path, v.Reordered w → AlikeAtPaths (nested v path) (nested w path))
    (hwithin : ∀ (v : Value) path, v.IsJson → ∀ x ∈ nested v path, x.Within v path) {rule : Rule}
    (hrule : rule.asksTextNames) (h : v.Reordered w) :
    AlikeAtPaths (rule.violations types nested v path) (rule.violations types nested w path) := by
  induction rule using Rule.induction generalizing v w path with
  | type admitted =>
    simp only [violations]
    have htypes : v.hasType types = w.hasType types := funext (hasType_eq_of_reordered h)
    exact alikeAtPaths_violationIf (by rw [htypes]) h
  | typeIn options =>
    simp only [violations]
    have htypes : v.hasType types = w.hasType types := funext (hasType_eq_of_reordered h)
    have hisOf : ∀ isSchema, v.isOf types isSchema = w.isOf types isSchema := isOf_congr htypes
    exact alikeAtPaths_violationIf (by rw [hisOf, (hnested v w path h).isEmpty_eq]) h
  | listed options =>
    simp only [violations]
    refine alikeAtPaths_violationIf ?_ h
    cases h.rearrangement <;> rfl
  | minimum limit exclusive =>
    cases h.rearrangement with
    | scalar s =>
      simp only [violations]
      split
      · exact .nil
      · split <;> exact alikeAtPaths_violationIf rfl h
    | _ => exact .nil
  | minItems limit =>
    cases h.rearrangement with
    | list hlist =>
      simp only [violations]
      exact alikeAtPaths_violationIf (by rw [hlist.length_eq]) h
    | _ => exact .nil
  | uniqueItems =>
    cases h.rearrangement with
    | list hlist =>
      simp only [violations]
      exact alikeAtPaths_violationIf (Value.hasRepeats_congr hlist) h
    | _ => exact .nil
  | pattern source =>
    cases h.rearrangement with
    | scalar s =>
      cases s with
      | text s => exact alikeAtPaths_violationIf rfl h
      | _ => exact .nil
    | _ => exact .nil
  | companion present needed =>
    cases h.rearrangement with
    | object _ _ hlookup =>
      simp only [violations]
      refine alikeAtPaths_violationIf ?_ h
      rw [Fields.has_eq_of_lookup hlookup, Fields.has_eq_of_lookup hlookup]
    | _ => exact .nil
  | items rule ih =>
    cases h.rearrangement with
    | list hlist =>
      simp only [violations]
      refine AlikeAtPaths.flatMap (forall₂_zipIdx hlist 0) fun a b hab => ?_
      rw [hab.2]
      exact ih hrule hab.1
    | _ => exact .nil
  | properties declared ih =>
    cases h.rearrangement with
    | @object fs gs _ _ hlookup =>
      simp only [violations, violationsDeclared_eq_flatMap, violationsNamed]
      refine AlikeAtPaths.flatMap_congr fun d hd => ?_
      have hrel := Fields.rel_named?_of_lookup hlookup d.1
      generalize Fields.named? fs d.1 = o, Fields.named? gs d.1 = o' at hrel ⊢
      cases hrel with
      | none => exact .nil
      | some hxy =>
        simp only [Option.toList_some, List.flatMap_singleton]
        exact ih d hd (asksTextNames_of_declared hrule d hd) hxy
    | _ => exact .nil
  | values rule ih =>
    cases h.rearrangement with
    | object =>
      have hinner : rule.asksTextNames := hrule
      have hfound : ∀ (y : Value) q, y.IsJson → ∀ x ∈ rule.violations types nested y q, x.Within y q :=
        fun _ _ hy _ hx => within_of_mem hwithin hinner hy hx
      exact alikeAtPaths_values hfound (fun _ _ _ hyz => ih hinner hyz) h
    | _ => exact .nil
  | names rule ih =>
    rw [violations_names_eq_nil hrule h.left, violations_names_eq_nil hrule h.right]
    exact .nil
  | all rules ih =>
    simp only [violations, violationsAll_eq_flatMap]
    exact AlikeAtPaths.flatMap_congr fun rule hr => ih rule hr (asksTextNames_of_all hrule rule hr) h
  | someOf rules ih =>
    simp only [violations]
    refine alikeAtPaths_violationIf (congrArg _ (followsSome_congr fun rule hr => ?_)) h
    have halike : AlikeAtPaths (rule.violations types nested v path) (rule.violations types nested w path) :=
      ih rule hr (asksTextNames_of_all hrule rule hr) h
    exact halike.isEmpty_eq
  | schema =>
    simp only [violations]
    exact hnested v w path h

theorem alikeAtPaths_violationsIn [CharacterNames] {rule : Rule} (hrule : rule.asksTextNames) (levels : Nat)
    (h : v.Reordered w) :
    AlikeAtPaths (rule.violationsIn types levels v path) (rule.violationsIn types levels w path) := by
  induction levels generalizing v w path with
  | zero =>
    exact .singleton ⟨rfl, rfl, h.alike⟩
  | succ levels ih =>
    rw [violationsIn, violationsIn]
    have hnested : ∀ v w path, v.Reordered w →
        AlikeAtPaths (rule.violationsIn types levels v path) (rule.violationsIn types levels w path) :=
      fun _ _ _ hvw => ih hvw
    refine alikeAtPaths_violations hnested (fun v path hv x hx => ?_) hrule h
    exact within_of_mem_violationsIn hrule hv hx

/-- Sorted by places, what a rule finds in two reordered documents is the same one by one. -/
theorem alike_mergeSort_violationsIn [CharacterNames] {rule : Rule} (hrule : rule.asksTextNames) (levels : Nat)
    (h : v.Reordered w) :
    List.Forall₂ Violation.Alike ((rule.violationsIn types levels v []).mergeSort placeLe)
      ((rule.violationsIn types levels w []).mergeSort placeLe) := by
  refine (alikeAtPaths_violationsIn hrule levels h).mergeSort fun x hx y hy htokens => ?_
  have hlocates : ∀ x ∈ rule.violationsIn types levels v [], v.Locates x.path := by
    intro x hx
    obtain ⟨rest, hpath, hpart⟩ := within_of_mem_violationsIn hrule h.left hx
    rw [hpath]
    exact Or.inl ⟨_, hpart⟩
  exact (hlocates x hx).map_token_injective (hlocates y hy) htokens

end

end Rule

/-! ## Documents -/

section
variable {d d' : Value} (h : d.Reordered d')
include h

theorem Draft.alike_mergeSort_violations [CharacterNames] (draft : Draft) :
    List.Forall₂ Violation.Alike ((draft.violations d).mergeSort placeLe)
      ((draft.violations d').mergeSort placeLe) := by
  rw [draft.violations_eq (Nat.lt_succ_of_le (Nat.le_max_left d.depth d'.depth)),
    draft.violations_eq (Nat.lt_succ_of_le (Nat.le_max_right d.depth d'.depth))]
  exact Rule.alike_mergeSort_violationsIn draft.asksTextNames_rule _ h

theorem Draft.ofDocument_reordered : Draft.ofDocument d = Draft.ofDocument d' := by
  cases h.rearrangement with
  | @object fs gs _ _ hlookup =>
    have hrel := Fields.rel_named?_of_lookup hlookup "$schema"
    simp only [Draft.ofDocument]
    generalize Fields.named? fs "$schema" = o, Fields.named? gs "$schema" = o' at hrel
    cases hrel with
    | none => rfl
    | some hxy => cases hxy.rearrangement <;> rfl
  | _ => rfl

/-- Listing the violations fails alike for both documents, or finds the same violations. -/
theorem schemaViolations_alike [CharacterNames] : (∃ f, schemaViolations d = .error f ∧ schemaViolations d' = .error f) ∨
    ∃ vs ws, schemaViolations d = .ok vs ∧ schemaViolations d' = .ok ws ∧ List.Forall₂ Violation.Alike vs ws := by
  unfold schemaViolations
  rw [Draft.ofDocument_reordered h]
  cases Draft.ofDocument d' with
  | error f => exact Or.inl ⟨f, rfl, rfl⟩
  | ok draft => exact Or.inr ⟨_, _, rfl, rfl, Draft.alike_mergeSort_violations h draft⟩

/-- What alike violations have in common is listed alike. -/
theorem schemaViolations_map_eq [CharacterNames] {β : Type} {f : Violation → β}
    (hf : ∀ x y : Violation, x.Alike y → f x = f y) :
    (schemaViolations d).map (List.map f) = (schemaViolations d').map (List.map f) := by
  rcases schemaViolations_alike h with ⟨fault, hd, hd'⟩ | ⟨vs, ws, hvs, hws, hvw⟩
  · rw [hd, hd']
  · have hmap : List.Forall₂ (· = ·) (vs.map f) (ws.map f) := by
      rw [List.forall₂_map_left_iff, List.forall₂_map_right_iff]
      exact hvw.imp hf
    rw [List.forall₂_eq_eq_eq] at hmap
    rw [hvs, hws]
    exact congrArg Except.ok hmap

end

/-- **Violations do not depend on the order of fields.** For JSON documents that differ only in the
    order of fields, at any depth, the lists of violations have the same paths and places in the
    same order, or neither can be made. They are the same one by one, the same breach by values
    that are alike, so they have the same length, and both documents are admitted or none is. -/
theorem schemaViolations_reordered [CharacterNames] {d d' : Value} (hd : d.IsJson) (hd' : d'.IsJson)
    (h : d.Alike d') :
    (schemaViolations d).map (List.map Violation.path) = (schemaViolations d').map (List.map Violation.path) ∧
    (schemaViolations d).map (List.map Violation.place) = (schemaViolations d').map (List.map Violation.place) ∧
    (∀ vs ws, schemaViolations d = .ok vs → schemaViolations d' = .ok ws →
      vs.length = ws.length ∧ List.Forall₂ Violation.Alike vs ws) ∧
    ∀ pointer, checkSchema d pointer = .ok (.ok ()) ↔ checkSchema d' pointer = .ok (.ok ()) := by
  have hreordered : d.Reordered d' := ⟨hd, hd', h⟩
  have hpaths := schemaViolations_map_eq hreordered fun x y hxy => hxy.path
  have hplaces : (schemaViolations d).map (List.map Violation.place) =
      (schemaViolations d').map (List.map Violation.place) :=
    schemaViolations_map_eq hreordered fun x y hxy => by rw [Violation.place, Violation.place, hxy.path]
  refine ⟨hpaths, hplaces, fun vs ws hvs hws => ?_, fun pointer => ?_⟩
  · rcases schemaViolations_alike hreordered with ⟨f, hf, -⟩ | ⟨vs', ws', hvs', hws', hvw⟩
    · rw [hvs] at hf
      cases hf
    · obtain rfl : vs = vs' := Except.ok.inj (hvs.symm.trans hvs')
      obtain rfl : ws = ws' := Except.ok.inj (hws.symm.trans hws')
      exact ⟨hvw.length_eq, hvw⟩
  · rw [checkSchema_eq_ok_iff_places, checkSchema_eq_ok_iff_places, hplaces]

/-- A document of draft 4 with two properties. One is no schema, the other one lists the same object
    twice, with its fields in two orders. -/
def shuffledDeclarations : Value :=
  .object [(.text "properties", .object [(.text "b", .int 5),
      (.text "a", .object [(.text "enum", .list [.object [(.text "y", .int 2), (.text "x", .int 1)],
        .object [(.text "x", .int 1), (.text "y", .int 2)]])])]),
    (.text "$schema", .text "http://json-schema.org/draft-04/schema#")]

/-- The same document, its fields sorted by their keys. -/
def sortedDeclarations : Value :=
  .object [(.text "$schema", .text "http://json-schema.org/draft-04/schema#"),
    (.text "properties", .object [
      (.text "a", .object [(.text "enum", .list [.object [(.text "x", .int 1), (.text "y", .int 2)],
        .object [(.text "x", .int 1), (.text "y", .int 2)]])]),
      (.text "b", .int 5)])]

/-- The violations are found in two orders, but listed in one. -/
theorem schemaViolations_reordered_sortedDeclarations :
    (Draft.violations .four shuffledDeclarations).map Violation.place = ["/properties/b", "/properties/a/enum"] ∧
    (Draft.violations .four sortedDeclarations).map Violation.place = ["/properties/a/enum", "/properties/b"] ∧
    (schemaViolations shuffledDeclarations).map (List.map Violation.place) =
      .ok ["/properties/a/enum", "/properties/b"] ∧
    (schemaViolations sortedDeclarations).map (List.map Violation.place) =
      .ok ["/properties/a/enum", "/properties/b"] := by
  have hfound : (Draft.violations .four sortedDeclarations).map Violation.place =
      ["/properties/a/enum", "/properties/b"] := by cbv
  have hsorted : (Draft.violations .four sortedDeclarations).Pairwise fun x y => placeLe x y := by
    decide +kernel
  have hlisted : (schemaViolations sortedDeclarations).map (List.map Violation.place) =
      .ok ["/properties/a/enum", "/properties/b"] := by
    rw [schemaViolations_eq_ok_iff.2 ⟨.four, by decide +kernel, (List.mergeSort_of_pairwise hsorted).symm⟩]
    exact congrArg Except.ok hfound
  have halike : shuffledDeclarations.Alike sortedDeclarations := by decide
  obtain ⟨-, hplaces, -⟩ := schemaViolations_reordered (by decide) (by decide) halike
  exact ⟨by cbv, hfound, hplaces.trans hlisted, hlisted⟩

end SchemaGuard
