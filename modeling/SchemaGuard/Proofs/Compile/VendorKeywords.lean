/-
  SchemaGuard — vendor keywords are inert.

  * `Inert mode n`: the schema `n` compiles alike with a vendor keyword more;
  * `inert_node`: so does every schema, as a node is compiled by keywords that meta-schemas
    name, and by the schemas under them.

  Main result: `vendorKeywords_inert`. Documents that differ in vendor keywords are refused by
  their meta-schema at the same places, and compile alike.
-/
import Mathlib
import SchemaGuard.Proofs.Compile.Retyping
import SchemaGuard.Proofs.MetaSchema.Tolerance

namespace SchemaGuard

open Validator

/-- A schema compiles alike with a vendor keyword more. -/
def Inert [CharacterNames] (mode : Closedness) (n : Value) : Prop :=
  ∀ n', Extended Draft.commonNames .schema n n' → ∀ p, compileNode mode n' p = compileNode mode n p

/-! ## Lists and properties -/

section
variable {mode : Closedness}

theorem compileBranches_extended [CharacterNames] {ns ns' : List Value}
    (hns : List.Forall₂ (Extended Draft.commonNames .schema) ns ns')
    (h : ∀ n ∈ ns, Inert mode n) (p : String) (i : Nat) :
    compileBranches mode ns' p i = compileBranches mode ns p i := by
  induction hns generalizing i with
  | nil => rfl
  | cons hn _ ih =>
    rw [compileBranches, compileBranches, h _ List.mem_cons_self _ hn,
      ih fun n hn => h n (List.mem_cons_of_mem _ hn)]

theorem compileProperties_extended [CharacterNames] {ps ps' : Fields}
    (hps : ExtendedDeclarations Draft.commonNames ps ps')
    (h : ∀ f ∈ ps, Inert mode f.2) (p : String) :
    compileProperties mode ps' p = compileProperties mode ps p := by
  induction hps with
  | nil => rfl
  | @cons f g ps ps' hfg _ ih =>
    obtain ⟨key, n⟩ := f
    obtain ⟨key', n'⟩ := g
    obtain ⟨rfl, hn⟩ : key = key' ∧ Extended Draft.commonNames .schema n n' := hfg
    rw [compileProperties, compileProperties, ih fun f hf => h f (List.mem_cons_of_mem _ hf)]
    simp only [h (key, n) List.mem_cons_self n' hn]

theorem compileUnion_extended [CharacterNames] {nodes nodes' : Value}
    (hnodes : Extended Draft.commonNames .schemas nodes nodes')
    (h : ∀ ns, nodes = .list ns → ∀ n ∈ ns, Inert mode n) (p : String) :
    compileUnion mode nodes' p = compileUnion mode nodes p := by
  cases hnodes.corresponds with
  | same => rfl
  | schemas hns => rw [compileUnion, compileUnion, compileBranches_extended hns (h _ rfl)]

end

/-! ## Nodes -/

section
variable {fields fields' : Fields} (hfields : ExtendedFields Draft.commonNames fields fields')
include hfields

/-- The keywords that nodes are compiled by, without those that schemas stand under. -/
def dataKeywords : List String :=
  ["$ref", "const", "enum", "type", "minItems", "maxItems", "uniqueItems", "required",
   "additionalProperties"] ++ scalarKeywords

theorem named?_dataKeywords : ∀ name ∈ dataKeywords, fields'.named? name = fields.named? name := by
  have hkeywords : ∀ name ∈ dataKeywords, name ∈ Draft.commonNames ∧ Role.ofKeyword name = .data := by
    decide +kernel
  exact fun name hname => hfields.named?_eq (hkeywords name hname).1 (hkeywords name hname).2

theorem given?_items_extended :
    Option.Rel (Extended Draft.commonNames .schema) (fields.given? "items") (fields'.given? "items") := by
  have hitems : Option.Rel (Extended Draft.commonNames .schema) (fields.named? "items") (fields'.named? "items") :=
    hfields "items" (by decide +kernel)
  rw [Fields.given?, Fields.given?]
  generalize fields.named? "items" = o, fields'.named? "items" = o' at hitems
  cases hitems with
  | none => exact .none
  | some hvw =>
    cases hvw.corresponds with
    | same => exact option_rel_refl (fun v => .same v) _
    | schema => exact .some hvw

theorem declared?_extended : Option.Rel (ExtendedDeclarations Draft.commonNames) fields.declared? fields'.declared? := by
  have hproperties : Option.Rel (Extended Draft.commonNames .declarations) (fields.named? "properties")
      (fields'.named? "properties") := hfields "properties" (by decide +kernel)
  rw [Fields.declared?, Fields.declared?]
  generalize fields.named? "properties" = o, fields'.named? "properties" = o' at hproperties
  cases hproperties with
  | none => exact .some (ExtendedDeclarations.refl _)
  | some hvw =>
    cases hvw.corresponds with
    | same => exact option_rel_refl ExtendedDeclarations.refl _
    | declarations hdeclared => exact .some hdeclared

end

section
variable [CharacterNames] {mode : Closedness} {fields fields' : Fields}
  (hfields : ExtendedFields Draft.commonNames fields fields')
  (h : ∀ n, sizeOf n < sizeOf fields → Inert mode n)
include hfields h

theorem compileArray_extended (p : String) :
    compileTyped mode fields' (.text "array") p = compileTyped mode fields (.text "array") p := by
  have hdata := named?_dataKeywords hfields
  have hrules : listRules fields' = listRules fields := by
    simp only [listRules, Fields.given?, hdata "minItems" (by decide), hdata "maxItems" (by decide),
      hdata "uniqueItems" (by decide)]
  have hitems := given?_items_extended hfields
  rw [compileTyped_array_eq, compileTyped_array_eq, hrules]
  generalize hv : fields.given? "items" = o, fields'.given? "items" = o' at hitems ⊢
  cases hitems with
  | none => rfl
  | some hvw =>
    have hlt := Fields.sizeOf_named? (Fields.given?_eq_some_iff.1 hv).1
    simp only [h _ hlt _ hvw]

theorem compileObject_extended (p : String) :
    compileTyped mode fields' (.text "object") p = compileTyped mode fields (.text "object") p := by
  have hdata := named?_dataKeywords hfields
  have hclosedness : closednessOf mode fields' = closednessOf mode fields := by
    simp only [closednessOf, hdata "additionalProperties" (by decide)]
  have hrequired : fields'.named "required" = fields.named "required" := by
    rw [Fields.named, Fields.named, hdata "required" (by decide)]
  have hdeclared := declared?_extended hfields
  rw [compileTyped_object_eq, compileTyped_object_eq, hclosedness, hrequired]
  generalize hd : fields.declared? = o, fields'.declared? = o' at hdeclared ⊢
  cases hdeclared with
  | none => rfl
  | some hps =>
    have hproperties := compileProperties_extended hps fun f hf => h f.2 (Fields.sizeOf_declared hd hf)
    simp only [hproperties]

theorem compileFields_extended (p : String) :
    compileFields mode fields' p = compileFields mode fields p := by
  have hdata := named?_dataKeywords hfields
  have hlist : ∀ {keyword ns}, fields.named? keyword = some (.list ns) → ∀ n ∈ ns, Inert mode n :=
    fun hns n hn => h n (Nat.lt_trans (List.sizeOf_lt_of_mem hn) (Fields.sizeOf_named?_list hns))
  have hrelated : Reading.Related (fun k => Extended Draft.commonNames (Role.ofKeyword k)) fields.reading fields'.reading := by
    refine Fields.reading_related ?_ fun k hk => hfields k ?_
    · rw [Fields.has, Fields.has, hdata "$ref" (by decide)]
    · revert k
      decide +kernel
  have hfrom := fields.reading_isFrom
  rw [compileFields_eq, compileFields_eq]
  generalize fields.reading = r, fields'.reading = r' at hrelated hfrom ⊢
  cases hrelated with
  | reference => rfl
  | free => rfl
  | literal hvw => cases hvw; rfl
  | choices hvw => cases hvw; rfl
  | typed hvw =>
    cases hvw
    exact compileTyped_eq (fun name hn => hdata name (List.mem_append_right _ hn))
      (compileArray_extended hfields h) (compileObject_extended hfields h) _ p
  | @union keyword v w hk hvw =>
    have hschemas : Extended Draft.commonNames .schemas v w := by rcases hk with rfl | rfl <;> exact hvw
    refine compileUnion_extended hschemas ?_ _
    rintro ns rfl
    exact hlist hfrom.2
  | @all v w hvw =>
    have hschemas : Extended Draft.commonNames .schemas v w := hvw
    cases hschemas.corresponds with
    | same => cases v <;> rfl
    | schemas hns => simp only [compileBranches_extended hns (hlist hfrom)]

end

/-- Every schema compiles alike with a vendor keyword more. -/
theorem inert_node [CharacterNames] (mode : Closedness) : ∀ n, Inert mode n
  | .object fields => fun n' hn p => by
    cases hn.corresponds with
    | same => rfl
    | schema hfields =>
      rw [compileNode, compileNode]
      exact compileFields_extended hfields (fun m hm => inert_node mode m) p
  | .scalar s => fun n' hn p => by cases hn; rfl
  | .list items => fun n' hn p => by cases hn; rfl
  | .tuple items => fun n' hn p => by cases hn; rfl
termination_by n => sizeOf n
decreasing_by simp only [Value.object.sizeOf_spec]; omega

/-! ## Documents -/

/-- A document and the same with at most one vendor keyword more, where schemas stand in it. -/
def VendorStep (v w : Value) : Prop := Extended v.knownNames .schema v w

/-- Documents that are made of each other by adding and removing vendor keywords, where schemas
    stand. -/
def SameButVendor : Value → Value → Prop := Relation.EqvGen VendorStep

/-- What does not change with one vendor keyword does not change with several. -/
theorem SameButVendor.eq {α : Type} {d d' : Value} (h : SameButVendor d d') (f : Value → α)
    (hf : ∀ v w, VendorStep v w → f v = f w) : f d = f d' := by
  induction h with
  | rel v w h => exact hf v w h
  | refl v => rfl
  | symm v w _ ih => exact ih.symm
  | trans u v w _ _ ih ih' => exact ih.trans ih'

/-- **Vendor keywords are inert.** Documents that differ in vendor keywords only, at the root and
    where `properties`, `items`, `anyOf`, `oneOf` and `allOf` lead, whatever the values of these
    keywords are, violate their meta-schema at the same places, so it admits both or none; and
    they compile to the same tree, or are refused for the same problem at the same pointer.
    In a document of draft 3 the keywords of draft 3 are no vendor keywords
    (`extends_not_inert`). -/
theorem vendorKeywords_inert [CharacterNames] {d d' : Value} (h : SameButVendor d d') :
    (schemaViolations d).map (List.map Violation.place) =
      (schemaViolations d').map (List.map Violation.place) ∧
    (∀ p, checkSchema d p = .ok (.ok ()) ↔ checkSchema d' p = .ok (.ok ())) ∧
    ∀ mode p, compile d mode p = compile d' mode p := by
  -- the place of a violation is a text of its path
  let text (path : Path) : String := String.join (path.map fun s => "/" ++ s.token)
  have htext : ∀ x : Except Fault (List Violation), x.map (List.map Violation.place) =
      (x.map (List.map Violation.path)).map (List.map text) := fun x => by
    cases x with
    | error f => rfl
    | ok vs => simp only [Except.map, List.map_map]; rfl
  have hplaces := h.eq (fun v => (schemaViolations v).map (List.map Violation.place)) fun v w hvw => by
    rw [htext, htext, schemaViolations_extended hvw]
  refine ⟨hplaces, fun p => ?_, fun mode p => ?_⟩
  · rw [checkSchema_eq_ok_iff_places, checkSchema_eq_ok_iff_places, hplaces]
  · exact h.eq (fun v => compile v mode p) fun v w hvw =>
      (inert_node mode v w (hvw.mono v.commonNames_subset) p).symm

/-- A document of draft 3. -/
def draftThreeDocument (fields : Fields) : Value :=
  .object ((.text "$schema", .text "http://json-schema.org/draft-03/schema#") :: fields)

/-- A keyword that no other dialect names, and draft 3 looks at. -/
theorem extends_not_inert :
    Extended Draft.commonNames .schema (draftThreeDocument []) (draftThreeDocument [(.text "extends", .int 5)]) ∧
    (schemaViolations (draftThreeDocument [])).map (List.map Violation.place) = .ok [] ∧
    (schemaViolations (draftThreeDocument [(.text "extends", .int 5)])).map (List.map Violation.place) =
      .ok ["/extends"] := by
  have hvendor : "extends" ∉ Draft.commonNames := by decide +kernel
  exact ⟨.vendor hvendor _ [_] [], by decide +kernel, by decide +kernel⟩

/-- An object whose property `a` is a text, with notes before the other keywords of both. -/
def annotated (rootNotes notes : Fields) : Value :=
  .object (rootNotes ++ [(.text "type", .text "object"), (.text "properties", .object [
    (.text "a", .object (notes ++ [(.text "type", .text "string"), (.text "minLength", .int (-1))]))])])

/-- A note at the root and another one in the property, both like schemas themselves. -/
theorem vendorKeywords_inert_annotated : ∃ d d' V, SameButVendor d d' ∧ d ≠ d' ∧
    d = annotated [(.text "x-note", .object [(.text "$ref", .text "#")])] [] ∧
    d' = annotated [] [(.text "x-note", .object [(.text "type", .int 1)])] ∧
    (schemaViolations d').map (List.map Violation.place) = .ok ["/properties/a/minLength"] ∧
    (schemaViolations d).map (List.map Violation.place) = .ok ["/properties/a/minLength"] ∧
    compile d' .strict "#" = .ok V ∧ compile d .strict "#" = .ok V := by
  let d := annotated [(.text "x-note", .object [(.text "$ref", .text "#")])] []
  let d' := annotated [] [(.text "x-note", .object [(.text "type", .int 1)])]
  let V : Validator := .object "#"
    [("a", .text "#/properties/a" ⟨some (.int (-1)), none, none, none, false⟩)] [] .strict
  have hvendor : "x-note" ∉ (annotated [] []).knownNames := by decide +kernel
  have hroot : VendorStep (annotated [] []) d := .vendor hvendor _ [] _
  have hnested : VendorStep (annotated [] []) d' :=
    .keyword [(.text "type", .text "object")] [] (.declaration [] [] (.vendor hvendor _ [] _))
  have hsame : SameButVendor d d' := .trans _ _ _ (.symm _ _ (.rel _ _ hroot)) (.rel _ _ hnested)
  have hplace : (schemaViolations d').map (List.map Violation.place) = .ok ["/properties/a/minLength"] := by
    cbv
  have hV : compile d' .strict "#" = .ok V := by cbv
  obtain ⟨hplaces, -, hcompile⟩ := vendorKeywords_inert hsame
  exact ⟨d, d', V, hsame, by decide, rfl, rfl, hplace, hplaces.trans hplace, hV,
    (hcompile .strict "#").trans hV⟩

end SchemaGuard
