/-
  SchemaGuard — JSON data whose fields stand in another order.

  * `v.Reordered w`: both are JSON data and alike, that is, they differ only in the order of
    fields, at any depth;
  * `Value.Rearrangement`: what this says of one value and the parts directly in it
    (`Reordered.rearrangement`). Fields are compared key by key.
-/
import SchemaGuard.Proofs.Value.Part

namespace SchemaGuard

namespace Value

/-- JSON data that differ in the order of fields only. -/
structure Reordered (v w : Value) : Prop where
  left : v.IsJson
  right : w.IsJson
  alike : v.Alike w

/-- The same scalar, lists of reordered elements, or objects with the same keys and reordered values
    under each. -/
inductive Rearrangement : Value → Value → Prop where
  | scalar (s : Scalar) : Rearrangement (.scalar s) (.scalar s)
  | list {xs ys : List Value} (h : List.Forall₂ Reordered xs ys) : Rearrangement (.list xs) (.list ys)
  | object {fs gs : Fields} (hnodup : fs.keys.Nodup) (hkeys : fs.keys.Perm gs.keys)
      (h : ∀ k, Option.Rel Reordered (List.lookup k fs) (List.lookup k gs)) :
      Rearrangement (.object fs) (.object gs)

section
variable {v w : Value}

theorem Reordered.symm (h : v.Reordered w) : w.Reordered v := ⟨h.right, h.left, h.alike.symm⟩

theorem Reordered.rearrangement (h : v.Reordered w) : v.Rearrangement w := by
  obtain ⟨hv, hw, halike⟩ := h
  cases v with
  | scalar s =>
    rw [alike_scalar_iff.1 halike]
    exact .scalar s
  | tuple items => exact absurd hv not_isJson_tuple
  | list xs =>
    obtain ⟨ys, rfl, hxy⟩ := alike_list_iff.1 halike
    rw [isJson_list] at hv hw
    refine .list (List.forall₂_iff_get.2 ⟨hxy.length_eq, fun i hx hy => ?_⟩)
    exact ⟨hv _ (List.getElem_mem _), hw _ (List.getElem_mem _), hxy.get hx hy⟩
  | object fs =>
    obtain ⟨gs, rfl, -⟩ := object_le_iff.1 halike.1
    rw [isJson_object] at hv hw
    refine .object hv.1 (halike.keys_perm hv.1 hw.1) fun k => ?_
    have hk := halike.lookup k
    generalize hx : List.lookup k fs = x, hy : List.lookup k gs = y at hk ⊢
    cases hk with
    | none => exact .none
    | some hxy =>
      exact .some ⟨hv.2.2 _ (Fields.mem_of_lookup hx), hw.2.2 _ (Fields.mem_of_lookup hy), hxy⟩

end

end Value

namespace Fields

theorem length_eq_of_perm {fs gs : Fields} (h : fs.keys.Perm gs.keys) : fs.length = gs.length := by
  simpa only [keys, List.length_map] using h.length_eq

section
variable {fs gs : Fields} (h : ∀ k, Option.Rel Value.Reordered (List.lookup k fs) (List.lookup k gs))
include h

theorem rel_named?_of_lookup (name : String) : Option.Rel Value.Reordered (fs.named? name) (gs.named? name) := by
  rw [named?_eq_lookup, named?_eq_lookup]
  exact h _

theorem has_eq_of_lookup (name : String) : fs.has name = gs.has name := by
  have hrel := rel_named?_of_lookup h name
  unfold has
  generalize fs.named? name = x, gs.named? name = y at hrel
  cases hrel <;> rfl

theorem exists_lookup_left {k : Scalar} {x : Value} (hx : List.lookup k fs = some x) :
    ∃ y, List.lookup k gs = some y ∧ x.Reordered y := by
  have hk := h k
  rw [hx] at hk
  generalize hy : List.lookup k gs = o at hk
  cases hk with
  | some hxy => exact ⟨_, rfl, hxy⟩

theorem exists_lookup_right {k : Scalar} {y : Value} (hy : List.lookup k gs = some y) :
    ∃ x, List.lookup k fs = some x ∧ x.Reordered y := by
  have hk := h k
  rw [hy] at hk
  generalize hx : List.lookup k fs = o at hk
  cases hk with
  | some hxy => exact ⟨_, rfl, hxy⟩

end

end Fields

end SchemaGuard
