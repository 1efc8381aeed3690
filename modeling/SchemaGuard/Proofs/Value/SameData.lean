/-
  SchemaGuard — equality of JSON data.

  `SameJson` says when two values are equal as JSON data: numbers by their value,
  objects whatever the order of their fields. On JSON data without NaNs it is
  equality of canonical forms (`canonical_eq_iff`), because sorted fields with
  different keys are determined by what they have under each key
  (`mergeSort_eq_iff`). Values that are alike have one canonical form
  (`Alike.canonical_eq`).
-/
import Mathlib.Data.String.Basic
import SchemaGuard.Proofs.Number.Line
import SchemaGuard.Proofs.Value.Part
import SchemaGuard.Value.Equality

namespace SchemaGuard

/-! ## Sorted fields -/

theorem fieldLe_total (a b : Scalar × Value) : fieldLe a b || fieldLe b a := by
  simp only [fieldLe, Bool.or_eq_true, Bool.and_eq_true, decide_eq_true_eq, beq_iff_eq]
  rcases lt_trichotomy a.1.shown b.1.shown with h | h | h
  · exact Or.inl (Or.inl h)
  · rcases le_total a.2.quoted b.2.quoted with h' | h'
    · exact Or.inl (Or.inr ⟨h, h'⟩)
    · exact Or.inr (Or.inr ⟨h.symm, h'⟩)
  · exact Or.inr (Or.inl h)

theorem fieldLe_trans (a b c : Scalar × Value) (hab : fieldLe a b) (hbc : fieldLe b c) :
    fieldLe a c := by
  simp only [fieldLe, Bool.or_eq_true, Bool.and_eq_true, decide_eq_true_eq, beq_iff_eq] at *
  rcases hab with hab | ⟨hab, hab'⟩ <;> rcases hbc with hbc | ⟨hbc, hbc'⟩
  · exact Or.inl (hab.trans hbc)
  · exact Or.inl (hbc ▸ hab)
  · exact Or.inl (hab ▸ hbc)
  · exact Or.inr ⟨hab.trans hbc, hab'.trans hbc'⟩

theorem shown_eq_of_fieldLe {a b : Scalar × Value} (hab : fieldLe a b) (hba : fieldLe b a) :
    a.1.shown = b.1.shown := by
  simp only [fieldLe, Bool.or_eq_true, Bool.and_eq_true, decide_eq_true_eq, beq_iff_eq] at hab hba
  rcases hab with hab | ⟨hab, -⟩
  · rcases hba with hba | ⟨hba, -⟩
    · exact absurd hba hab.asymm
    · exact hba.symm
  · exact hab

namespace Fields

theorem eq_of_shown_eq {k l : Scalar} (hk : k.isText) (hl : l.isText) (h : k.shown = l.shown) :
    k = l := by
  cases k <;> cases l <;> simp_all [Scalar.isText, Scalar.shown]

theorem perm_iff_lookup_eq {fs gs : Fields} (hf : fs.keys.Nodup) (hg : gs.keys.Nodup) :
    List.Perm fs gs ↔ ∀ k, List.lookup k fs = List.lookup k gs := by
  rw [List.perm_ext_iff_of_nodup (List.Nodup.of_map _ hf) (List.Nodup.of_map _ hg)]
  constructor
  · intro h k
    refine Option.ext fun x => ?_
    rw [lookup_eq_some_iff hf, lookup_eq_some_iff hg, h]
  · rintro h ⟨k, x⟩
    rw [← lookup_eq_some_iff hf, ← lookup_eq_some_iff hg, h]

/-- Sorted fields with different texts as keys are determined by what they have
    under each key. -/
theorem mergeSort_eq_iff {fs gs : Fields} (hf : fs.keys.Nodup) (hg : gs.keys.Nodup)
    (ht : ∀ k ∈ fs.keys, k.isText) :
    fs.mergeSort fieldLe = gs.mergeSort fieldLe ↔
      ∀ k, List.lookup k fs = List.lookup k gs := by
  have hfs := List.mergeSort_perm fs fieldLe
  have hgs := List.mergeSort_perm gs fieldLe
  rw [← perm_iff_lookup_eq hf hg]
  constructor
  · intro h; exact hfs.symm.trans (h ▸ hgs)
  · intro h
    refine @List.Perm.eq_of_pairwise _ (fun a b => fieldLe a b) _ _ ?_
      (List.pairwise_mergeSort fieldLe_trans fieldLe_total fs)
      (List.pairwise_mergeSort fieldLe_trans fieldLe_total gs) (hfs.trans (h.trans hgs.symm))
    rintro ⟨k, x⟩ ⟨l, y⟩ ha hb hab hba
    have ha' : (k, x) ∈ fs := hfs.mem_iff.1 ha
    have hb' : (l, y) ∈ fs := h.mem_iff.2 (hgs.mem_iff.1 hb)
    obtain rfl : k = l := eq_of_shown_eq (ht k (List.mem_map_of_mem ha'))
      (ht l (List.mem_map_of_mem hb')) (shown_eq_of_fieldLe hab hba)
    rw [← lookup_eq_some_iff hf] at ha' hb'
    rw [Option.some.inj (ha'.symm.trans hb')]

theorem lookup_mapValues (g : Value → Value) (fields : Fields) (k : Scalar) :
    List.lookup k (fields.map fun f => (f.1, g f.2)) = (List.lookup k fields).map g := by
  induction fields with
  | nil => rfl
  | cons f fields ih =>
    obtain ⟨l, x⟩ := f
    simp only [List.map_cons, lookup_cons, ih]
    split <;> rfl

end Fields

namespace Value

/-! ## Canonical forms -/

theorem canonicalFields_eq {fields : Fields} (h : ∀ k ∈ fields.keys, k.isText) :
    canonicalFields fields = fields.map fun f => (f.1, f.2.canonical) := by
  rw [canonicalFields_eq_map]
  refine List.map_congr_left fun f hf => ?_
  have := h f.1 (List.mem_map_of_mem hf)
  obtain ⟨k, x⟩ := f
  cases k <;> simp_all [Scalar.isText, Scalar.shown]

/-- Objects of JSON data have one canonical form if they have values of one
    canonical form under each key. -/
theorem canonical_object_eq_iff {fs gs : Fields} (hf : IsJson (.object fs))
    (hg : IsJson (.object gs)) :
    canonical (.object fs) = canonical (.object gs) ↔
      ∀ k, (List.lookup k fs).map canonical = (List.lookup k gs).map canonical := by
  rw [isJson_object] at hf hg
  have keys_map : ∀ fields : Fields,
      Fields.keys (fields.map fun f => (f.1, f.2.canonical)) = fields.keys := by
    intro fields; simp [Fields.keys, Function.comp_def]
  rw [canonical, canonical, Value.object.injEq, canonicalFields_eq hf.2.1,
    canonicalFields_eq hg.2.1, Fields.mergeSort_eq_iff (by rw [keys_map]; exact hf.1)
      (by rw [keys_map]; exact hg.1) (by rw [keys_map]; exact hf.2.1)]
  simp only [Fields.lookup_mapValues]

theorem canonical_list_eq_iff {xs ys : List Value} :
    canonical (.list xs) = canonical (.list ys) ↔
      List.Forall₂ (fun x y => x.canonical = y.canonical) xs ys := by
  rw [canonical, canonical, Value.list.injEq, canonicalItems_eq_map, canonicalItems_eq_map,
    ← List.forall₂_eq_eq_eq, List.forall₂_map_left_iff, List.forall₂_map_right_iff]

/-- The order of fields does not count. -/
theorem Alike.canonical_eq {v w : Value} (hv : v.IsJson) (hw : w.IsJson) (h : v.Alike w) :
    v.canonical = w.canonical := by
  induction v generalizing w with
  | scalar s => rw [alike_scalar_iff.1 h]
  | tuple items => exact absurd hv not_isJson_tuple
  | list xs ih =>
    obtain ⟨ys, rfl, hxy⟩ := alike_list_iff.1 h
    rw [isJson_list] at hv hw
    rw [canonical_list_eq_iff, List.forall₂_iff_get]
    refine ⟨hxy.length_eq, fun i hx hy => ?_⟩
    exact ih _ (List.getElem_mem _) (hv _ (List.getElem_mem _)) (hw _ (List.getElem_mem _))
      (hxy.get hx hy)
  | object fs ih =>
    obtain ⟨gs, rfl, -⟩ := object_le_iff.1 h.1
    refine (canonical_object_eq_iff hv hw).2 fun k => ?_
    have hk := h.lookup k
    rw [isJson_object] at hv hw
    generalize hx : List.lookup k fs = x at hk ⊢
    generalize hy : List.lookup k gs = y at hk ⊢
    cases hk with
    | none => rfl
    | some hxy =>
      have hx' := Fields.mem_of_lookup hx
      exact congrArg some (ih _ hx' (hv.2.2 _ hx') (hw.2.2 _ (Fields.mem_of_lookup hy)) hxy)

/-! ## Equality as JSON data -/

/-- Equality of JSON data: numbers count by their value, and the order of fields
    does not count. -/
inductive SameJson : Value → Value → Prop
  | null : SameJson .null .null
  | bool (b : Bool) : SameJson (.bool b) (.bool b)
  | text (s : String) : SameJson (.text s) (.text s)
  | number {a b : Number} {x : WithBot (WithTop ℚ)} (ha : a.value? = some x)
      (hb : b.value? = some x) : SameJson (.number a) (.number b)
  | list {xs ys : List Value} (hlen : xs.length = ys.length)
      (h : ∀ i (hx : i < xs.length) (hy : i < ys.length), SameJson xs[i] ys[i]) :
      SameJson (.list xs) (.list ys)
  | object {fs gs : Fields} (hkeys : ∀ k, k ∈ fs.keys ↔ k ∈ gs.keys)
      (h : ∀ k x y, List.lookup k fs = some x → List.lookup k gs = some y → SameJson x y) :
      SameJson (.object fs) (.object gs)

theorem sameJson_text_iff {v : Value} {s : String} : v.SameJson (.text s) ↔ v = .text s := by
  constructor
  · rintro ⟨⟩; rfl
  · rintro rfl; exact .text s

/-- Whether a value is no NaN. -/
def isNumericNode : Value → Bool
  | .double (.nan _) => false
  | _ => true

/-- Data without NaNs. -/
def NaNFree (v : Value) : Prop := ∀ x ∈ v.parts, x.isNumericNode

instance (v : Value) : Decidable v.NaNFree := by unfold NaNFree; infer_instance

theorem naNFree_list {items : List Value} : NaNFree (.list items) ↔ ∀ x ∈ items, x.NaNFree := by
  simp [NaNFree, forall_parts_list, isNumericNode]

theorem naNFree_object {fields : Fields} :
    NaNFree (.object fields) ↔ ∀ f ∈ fields, f.2.NaNFree := by
  simp [NaNFree, forall_parts_object, isNumericNode]

theorem AllFinite.naNFree {v : Value} (h : v.AllFinite) : v.NaNFree := by
  intro x hx
  have := h x hx
  unfold isNumericNode; split
  · simp [isFiniteNode] at this
  · rfl

theorem NaNFree.value? {n : Number} (h : NaNFree (.number n)) : ∃ x, n.value? = some x := by
  rw [NaNFree, forall_parts_scalar] at h
  unfold Number.value? Number.extent?
  split <;> simp_all [isNumericNode, Double.scaled?]

theorem SameJson.canonical_eq {v w : Value} (h : v.SameJson w) (hv : v.IsJson) (hw : w.IsJson) :
    v.canonical = w.canonical := by
  induction h with
  | null => rfl
  | bool b => rfl
  | text s => rfl
  | number ha hb => rw [canonical, canonical, (Number.normal_eq_iff ha).2 hb]
  | list hlen _ ih =>
    rw [isJson_list] at hv hw
    rw [canonical_list_eq_iff, List.forall₂_iff_get]
    exact ⟨hlen, fun i hx hy =>
      ih i hx hy (hv _ (List.getElem_mem _)) (hw _ (List.getElem_mem _))⟩
  | @object fs gs hkeys _ ih =>
    refine (canonical_object_eq_iff hv hw).2 fun k => ?_
    rw [isJson_object] at hv hw
    have hk := hkeys k
    rw [← Fields.lookup_isSome_iff, ← Fields.lookup_isSome_iff] at hk
    cases hx : List.lookup k fs with
    | none =>
      cases hy : List.lookup k gs with
      | none => rfl
      | some y => rw [hx, hy] at hk; simp at hk
    | some x =>
      cases hy : List.lookup k gs with
      | none => rw [hx, hy] at hk; simp at hk
      | some y =>
        exact congrArg some (ih k x y hx hy (hv.2.2 _ (Fields.mem_of_lookup hx))
          (hw.2.2 _ (Fields.mem_of_lookup hy)))

/-- Only NaNs have a canonical form without being equal to anything. -/
theorem sameJson_of_canonical_eq {v w : Value} (hv : v.IsJson) (hw : w.IsJson) (hn : v.NaNFree)
    (h : v.canonical = w.canonical) : v.SameJson w := by
  induction v generalizing w with
  | tuple items => exact absurd hv not_isJson_tuple
  | scalar s =>
    cases w with
    | list items => cases s <;> simp [canonical] at h
    | tuple items => cases s <;> simp [canonical] at h
    | object fields => cases s <;> simp [canonical] at h
    | scalar t =>
      cases s with
      | number a =>
        cases t with
        | number b =>
          obtain ⟨x, hx⟩ := hn.value?
          simp only [canonical, Value.scalar.injEq, Scalar.number.injEq] at h
          exact .number hx ((Number.normal_eq_iff hx).1 h)
        | _ => simp [canonical] at h
      | null => cases t <;> simp [canonical] at h; exact .null
      | bool b => cases t <;> simp [canonical] at h; subst h; exact .bool b
      | text s => cases t <;> simp [canonical] at h; subst h; exact .text s
      | _ => simp [IsJson, forall_parts_scalar, isJsonNode] at hv
  | list xs ih =>
    cases w with
    | scalar s => cases s <;> simp [canonical] at h
    | tuple items => exact absurd hw not_isJson_tuple
    | object fields => simp [canonical] at h
    | list ys =>
      rw [canonical_list_eq_iff] at h
      rw [isJson_list] at hv hw
      rw [naNFree_list] at hn
      refine .list h.length_eq fun i hx hy => ?_
      exact ih _ (List.getElem_mem _) (hv _ (List.getElem_mem _)) (hw _ (List.getElem_mem _))
        (hn _ (List.getElem_mem _)) (h.get hx hy)
  | object fs ih =>
    cases w with
    | scalar s => cases s <;> simp [canonical] at h
    | list items => simp [canonical] at h
    | tuple items => exact absurd hw not_isJson_tuple
    | object gs =>
      rw [canonical_object_eq_iff hv hw] at h
      rw [isJson_object] at hv hw
      rw [naNFree_object] at hn
      constructor
      · intro k
        have := congrArg Option.isSome (h k)
        simpa [← Fields.lookup_isSome_iff] using Bool.eq_iff_iff.1 this
      · intro k x y hx hy
        have hxy := h k
        rw [hx, hy] at hxy
        have hx' := Fields.mem_of_lookup hx
        exact ih _ hx' (hv.2.2 _ hx') (hw.2.2 _ (Fields.mem_of_lookup hy)) (hn _ hx')
          (Option.some.inj hxy)

/-- **Equality of canonical forms is equality of JSON data.** -/
theorem canonical_eq_iff {v w : Value} (hv : v.IsJson) (hw : w.IsJson) (hn : v.NaNFree) :
    v.canonical = w.canonical ↔ v.SameJson w :=
  ⟨sameJson_of_canonical_eq hv hw hn, fun h => h.canonical_eq hv hw⟩

end Value

end SchemaGuard
