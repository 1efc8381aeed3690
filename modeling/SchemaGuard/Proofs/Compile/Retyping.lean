/-
  SchemaGuard — nodes with another type.

  Where a node has a list of types, its branches are compiled from copies of the node
  with one type each (`compileNode_set_type`). The copies have distinct keys, as the
  node has, and are smaller, so what is shown by induction over schemas holds of them, too.
-/
import SchemaGuard.Proofs.Compile.Shape
import SchemaGuard.Proofs.Value.Join

namespace SchemaGuard

/-! ## Fields that are set -/

namespace Fields

section
variable {fields : Fields} {name : String} {old v : Value}

theorem mem_set {f : Scalar × Value} (hf : f ∈ fields.set name v) : f ∈ fields ∨ f.2 = v := by
  unfold set at hf
  induction fields with
  | nil => exact Or.inr (by rw [List.mem_singleton.1 hf])
  | cons g fields ih =>
    obtain ⟨key, w⟩ := g
    rw [put] at hf
    split at hf
    · rcases List.mem_cons.1 hf with rfl | hf
      · exact Or.inr rfl
      · exact Or.inl (List.mem_cons_of_mem _ hf)
    · rcases List.mem_cons.1 hf with rfl | hf
      · exact Or.inl List.mem_cons_self
      · exact (ih hf).imp_left (List.mem_cons_of_mem _)

/-- Only the value that is set last counts. -/
theorem set_set (fields : Fields) (name : String) (v w : Value) :
    (fields.set name v).set name w = fields.set name w := by
  unfold set
  induction fields with
  | nil => rw [put, put, put, if_pos rfl]
  | cons f fields ih =>
    obtain ⟨key, x⟩ := f
    by_cases hk : key = .text name
    · simp only [put, if_pos hk]
    · simp only [put, if_neg hk, ih]

theorem sizeOf_set_lt (h : fields.named? name = some old) (hv : sizeOf v < sizeOf old) :
    sizeOf (fields.set name v) < sizeOf fields := by
  unfold set
  induction fields with
  | nil => cases h
  | cons f fields ih =>
    obtain ⟨key, w⟩ := f
    rw [named?_cons] at h
    by_cases hk : key = .text name
    · rw [if_pos hk] at h
      cases h
      simp only [put, hk, if_true, List.cons.sizeOf_spec, Prod.mk.sizeOf_spec]
      omega
    · rw [if_neg hk] at h
      have hlt := ih h
      simp only [put, hk, if_false, List.cons.sizeOf_spec]
      omega

end

end Fields

theorem Value.DistinctKeys.set {fields : Fields} (h : Value.DistinctKeys (.object fields)) {name : String}
    {old v : Value} (hold : fields.named? name = some old) (hv : v.DistinctKeys) :
    Value.DistinctKeys (.object (fields.set name v)) := by
  obtain ⟨hnodup, hparts⟩ := Value.distinctKeys_object.1 h
  refine Value.distinctKeys_object.2 ⟨?_, fun f hf => ?_⟩
  · rwa [Fields.keys_set hold v]
  · rcases Fields.mem_set hf with hf | rfl
    · exact hparts f hf
    · exact hv

/-! ## Copies of a node -/

section
variable {mode : Closedness} {fields fields' : Fields}

/-- The keywords of texts and numbers. -/
def scalarKeywords : List String :=
  ["pattern", "minLength", "maxLength", "format", "minimum", "maximum", "exclusiveMinimum", "exclusiveMaximum"]

section
variable (h : ∀ name ∈ scalarKeywords, fields'.named? name = fields.named? name)
include h

/-- Nodes that say the same of texts and numbers are compiled alike under the types of neither
    arrays nor objects. -/
theorem compileTyped_scalar_eq [CharacterNames] {s : Scalar} (harray : Value.scalar s ≠ .text "array")
    (hobject : Value.scalar s ≠ .text "object") (p : String) :
    compileTyped mode fields' (.scalar s) p = compileTyped mode fields (.scalar s) p := by
  have hgiven : ∀ name ∈ scalarKeywords, fields'.given? name = fields.given? name := fun name hn => by
    rw [Fields.given?, Fields.given?, h name hn]
  have hnumeric : ∀ name ∈ scalarKeywords, fields'.numeric? name = fields.numeric? name := fun name hn => by
    rw [Fields.numeric?, Fields.numeric?, h name hn]
  have hpattern : fields'.named "pattern" = fields.named "pattern" := by
    rw [Fields.named, Fields.named, h "pattern" (by decide)]
  have htext : compileText fields' p = compileText fields p := by
    simp only [compileText, hpattern, hgiven "minLength" (by decide), hgiven "maxLength" (by decide),
      hgiven "pattern" (by decide), h "format" (by decide)]
  have hnumber : ∀ integer, compileNumber fields' p integer = compileNumber fields p integer :=
    fun integer => by
      simp only [compileNumber, hnumeric "minimum" (by decide), hnumeric "maximum" (by decide),
        hnumeric "exclusiveMinimum" (by decide), hnumeric "exclusiveMaximum" (by decide)]
  rw [compileTyped.eq_def, compileTyped.eq_def]
  split
  next => simp_all
  next => rfl
  next => rw [htext]
  next => rw [hnumber]
  next => rw [hnumber]
  next => rfl
  next => rfl
  next heq => exact absurd heq harray
  next heq => exact absurd heq hobject
  next => rfl

/-- Nodes that say the same of texts and numbers, and are compiled alike as arrays and as
    objects, are compiled alike under every type. -/
theorem compileTyped_eq [CharacterNames]
    (harray : ∀ p, compileTyped mode fields' (.text "array") p = compileTyped mode fields (.text "array") p)
    (hobject : ∀ p, compileTyped mode fields' (.text "object") p = compileTyped mode fields (.text "object") p)
    (type : Value) : ∀ p, compileTyped mode fields' type p = compileTyped mode fields type p := by
  induction type with
  | list types ih =>
    intro p
    have htypes : ∀ i, compileTypes mode fields' types (p ++ "/type") i =
        compileTypes mode fields types (p ++ "/type") i := by
      induction types with
      | nil => intro i; rw [compileTypes, compileTypes]
      | cons t types iht =>
        intro i
        rw [compileTypes, compileTypes, ih t List.mem_cons_self,
          iht fun t ht => ih t (List.mem_cons_of_mem _ ht)]
    rw [compileTyped, compileTyped, htypes]
  | tuple types => intro p; simp only [compileTyped]
  | object types => intro p; simp only [compileTyped]
  | scalar s =>
    intro p
    by_cases hs : Value.scalar s = .text "array"
    · rw [hs, harray]
    by_cases hs' : Value.scalar s = .text "object"
    · rw [hs', hobject]
    exact compileTyped_scalar_eq h hs hs' p

end

/-- A node is compiled under a type whatever its own `type` says. -/
theorem compileTyped_congr [CharacterNames] (h : ∀ name, name ≠ "type" → fields'.named? name = fields.named? name)
    (type : Value) : ∀ p, compileTyped mode fields' type p = compileTyped mode fields type p := by
  have hscalar : ∀ name ∈ scalarKeywords, fields'.named? name = fields.named? name := fun name hn =>
    h name fun heq => absurd (heq ▸ hn) (by decide)
  refine compileTyped_eq hscalar (fun p => ?_) (fun p => ?_) type
  · simp only [compileTyped_array_eq, listRules, Fields.given?, h "items" (by decide), h "minItems" (by decide),
      h "maxItems" (by decide), h "uniqueItems" (by decide)]
  · simp only [compileTyped_object_eq, Fields.declared?, Fields.named, closednessOf, h "properties" (by decide),
      h "required" (by decide), h "additionalProperties" (by decide)]

theorem Fields.named?_set_type {name : String} (hn : name ≠ "type") (t : Value) :
    (fields.set "type" t).named? name = fields.named? name := by
  rw [Fields.named?_set, if_neg (Ne.symm hn)]

/-- The copy of a node with another type is read by that type. -/
theorem Fields.reading_set_type {type : Value} (hr : fields.reading = .typed type) (t : Value) :
    (fields.set "type" t).reading = .typed t := by
  have hself : (fields.set "type" t).named? "type" = some t := by rw [Fields.named?_set, if_pos rfl]
  have hhas : (fields.set "type" t).has "$ref" = fields.has "$ref" := by
    rw [Fields.has, Fields.has, named?_set_type (by decide)]
  unfold Fields.reading at hr ⊢
  rw [hhas, hself, named?_set_type (by decide), named?_set_type (by decide), named?_set_type (by decide),
    named?_set_type (by decide), named?_set_type (by decide)]
  split at hr
  · cases hr
  · split at hr <;> simp_all

/-- The copy of a node with one of its types is read under that type. -/
theorem compileNode_set_type [CharacterNames] {type : Value} (hr : fields.reading = .typed type) (t : Value)
    (p : String) :
    compileNode mode (.object (fields.set "type" t)) p = compileTyped mode fields t p := by
  rw [compileNode, compileFields_eq, Fields.reading_set_type hr]
  exact compileTyped_congr (fun _ hn => Fields.named?_set_type hn t) t p

end

end SchemaGuard
