/-
  SchemaGuard — `merge` is the join of parts of one value.

  * `lookup_mergeFields` says what the merged fields have under a key;
  * `le_merge_left`, `le_merge_right`, `merge_le`: of two parts of one value,
    `merge` is the least value that both are parts of.
-/
import SchemaGuard.Proofs.Value.Part
import SchemaGuard.Value.Merge

namespace SchemaGuard

namespace Fields

theorem lookup_put (fields : Fields) (key k : Scalar) (v : Value) :
    List.lookup k (fields.put key v) = if k = key then some v else List.lookup k fields := by
  induction fields with
  | nil => simp [put, lookup_cons]
  | cons f fields ih =>
    obtain ⟨l, x⟩ := f
    by_cases hl : l = key
    · subst hl; simp only [put, if_true, lookup_cons]; split <;> rfl
    · simp only [put, if_neg hl, lookup_cons, ih]
      by_cases h : k = l
      · subst h; simp [hl]
      · simp [h]

theorem keys_put {fields : Fields} {key : Scalar} (h : key ∈ fields.keys) (v : Value) :
    (fields.put key v).keys = fields.keys := by
  induction fields with
  | nil => simp [keys] at h
  | cons f fields ih =>
    obtain ⟨l, x⟩ := f
    by_cases hl : l = key
    · simp [put, hl, keys]
    · have hk : key ∈ keys fields := by simpa [keys, Ne.symm hl] using h
      simpa [put, hl, keys] using ih hk

/-- A field that is there is set in its place. -/
theorem keys_set {fields : Fields} {name : String} {old : Value} (h : fields.named? name = some old)
    (v : Value) : (fields.set name v).keys = fields.keys :=
  keys_put (List.mem_map_of_mem (mem_of_named? h)) v

end Fields

namespace Value

theorem mergeItems_eq_zipWith : ∀ left right : List Value,
    mergeItems left right = List.zipWith merge left right
  | [], _ => by simp [mergeItems]
  | _ :: _, [] => by simp [mergeItems]
  | l :: left, r :: right => by simp [mergeItems, mergeItems_eq_zipWith left right]

/-! ## Merged fields -/

/-- Under a key the merged fields have the merged values of both sides, or the
    value of the side that has the key. -/
theorem lookup_mergeFields {right : Fields} (hr : right.keys.Nodup) (k : Scalar) (left : Fields) :
    List.lookup k (mergeFields left right) =
      match List.lookup k left, List.lookup k right with
      | some l, some r => some (l.merge r)
      | some l, none => some l
      | none, r => r := by
  induction right generalizing left with
  | nil => rw [mergeFields]; cases List.lookup k left <;> simp
  | cons f right ih =>
    obtain ⟨key, r⟩ := f
    simp only [Fields.keys, List.map_cons, List.nodup_cons] at hr
    have hkey : List.lookup key right = none := by
      rw [← Option.not_isSome_iff_eq_none, Fields.lookup_isSome_iff]; exact hr.1
    rw [mergeFields]
    split
    next l hl =>
      rw [ih hr.2, Fields.lookup_put]
      by_cases h : k = key
      · subst h; simp [hl, hkey]
      · rw [if_neg h, Fields.lookup_cons, if_neg h]
    next hl =>
      rw [ih hr.2, List.lookup_append]
      by_cases h : k = key
      · subst h; simp [hl, hkey]
      · simp [Fields.lookup_cons, h]

theorem nodup_keys_mergeFields {right left : Fields} (hl : left.keys.Nodup) :
    (Fields.keys (mergeFields left right)).Nodup := by
  induction right generalizing left with
  | nil => rwa [mergeFields]
  | cons f right ih =>
    obtain ⟨key, r⟩ := f
    rw [mergeFields]
    split
    next l h =>
      have hkey : key ∈ left.keys := Fields.lookup_isSome_iff.1 (by rw [h]; rfl)
      exact ih (by rwa [Fields.keys_put hkey])
    next h =>
      have hkey : key ∉ left.keys := by rw [← Fields.lookup_isSome_iff, h]; simp
      refine ih ?_
      rw [Fields.keys, List.map_append]
      exact List.nodup_append.2 ⟨hl, by simp, by rintro a ha b hb rfl; simp_all [Fields.keys]⟩

/-- A merged field is one of either side or merged of both. -/
theorem mem_mergeFields {left right : Fields} (hl : left.keys.Nodup) (hr : right.keys.Nodup)
    {k : Scalar} {x : Value} (h : (k, x) ∈ mergeFields left right) :
    (∃ l r, List.lookup k left = some l ∧ List.lookup k right = some r ∧ x = l.merge r) ∨
      List.lookup k left = some x ∨ List.lookup k right = some x := by
  rw [← Fields.lookup_eq_some_iff (nodup_keys_mergeFields hl), lookup_mergeFields hr] at h
  split at h
  next l r hkl hkr => exact Or.inl ⟨l, r, hkl, hkr, (Option.some.inj h).symm⟩
  next hkl _ => exact Or.inr (Or.inl (hkl.trans h))
  next => exact Or.inr (Or.inr h)

/-! ## The join -/

theorem isJson_merge {l r : Value} (hl : l.IsJson) (hr : r.IsJson) : (l.merge r).IsJson := by
  induction l generalizing r with
  | scalar s => simpa [merge] using hl
  | tuple items => exact absurd hl not_isJson_tuple
  | list xs ih =>
    cases r with
    | list ys =>
      rw [merge]
      split
      · rw [isJson_list] at hl hr ⊢
        rw [mergeItems_eq_zipWith]
        intro z hz
        obtain ⟨i, hi, rfl⟩ := List.getElem_of_mem hz
        rw [List.getElem_zipWith]
        exact ih _ (List.getElem_mem _) (hl _ (List.getElem_mem _)) (hr _ (List.getElem_mem _))
      · exact hl
    | _ => simpa [merge] using hl
  | object fs ih =>
    cases r with
    | object gs =>
      rw [merge]
      rw [isJson_object] at hl hr ⊢
      obtain ⟨hln, hlt, hlj⟩ := hl
      obtain ⟨hrn, hrt, hrj⟩ := hr
      have key : ∀ k x, (k, x) ∈ mergeFields fs gs → k.isText ∧ x.IsJson := by
        intro k x hx
        rcases mem_mergeFields hln hrn hx with ⟨l, r, hkl, hkr, rfl⟩ | hkl | hkr
        · have hf := Fields.mem_of_lookup hkl
          exact ⟨hlt k (List.mem_map_of_mem hf),
            ih _ hf (hlj _ hf) (hrj _ (Fields.mem_of_lookup hkr))⟩
        · have hf := Fields.mem_of_lookup hkl
          exact ⟨hlt k (List.mem_map_of_mem hf), hlj _ hf⟩
        · have hf := Fields.mem_of_lookup hkr
          exact ⟨hrt k (List.mem_map_of_mem hf), hrj _ hf⟩
      refine ⟨nodup_keys_mergeFields hln, fun k hk => ?_, fun f hf => (key f.1 f.2 hf).2⟩
      obtain ⟨f, hf, rfl⟩ := List.mem_map.1 hk
      exact (key f.1 f.2 hf).1
    | _ => simpa [merge] using hl

theorem le_merge_left {l r : Value} (hl : l.IsJson) (hr : r.IsJson) : l ≤ l.merge r := by
  induction l generalizing r with
  | scalar s => simp [merge]
  | tuple items => exact absurd hl not_isJson_tuple
  | list xs ih =>
    cases r with
    | list ys =>
      rw [merge]
      split
      next hlen =>
        rw [isJson_list] at hl hr
        rw [list_le_list, mergeItems_eq_zipWith, List.forall₂_iff_get]
        refine ⟨by simp [hlen], fun i h₁ h₂ => ?_⟩
        simp only [List.get_eq_getElem, List.getElem_zipWith]
        exact ih _ (List.getElem_mem _) (hl _ (List.getElem_mem _)) (hr _ (List.getElem_mem _))
      next => exact le_refl hl
    | _ => simpa [merge] using le_refl hl
  | object fs ih =>
    cases r with
    | object gs =>
      have hlj := hl
      rw [isJson_object] at hl hr
      rw [merge, object_le_object]
      rintro ⟨k, x⟩ hx
      rw [lookup_mergeFields hr.1, (Fields.lookup_eq_some_iff hl.1).2 hx]
      cases hg : List.lookup k gs with
      | none => exact ⟨x, rfl, le_refl (hl.2.2 _ hx)⟩
      | some y =>
        exact ⟨_, rfl, ih _ hx (hl.2.2 _ hx) (hr.2.2 _ (Fields.mem_of_lookup hg))⟩
    | _ => simpa [merge] using le_refl hl

/-- Unlike the left side, the right one has to agree with the other in its shape. -/
theorem le_merge_right {l r v : Value} (hl : l.IsJson) (hr : r.IsJson) (hlv : l ≤ v) (hrv : r ≤ v) :
    r ≤ l.merge r := by
  induction l generalizing r v with
  | scalar s =>
    rw [scalar_le_iff] at hlv; subst hlv
    rw [le_scalar_iff] at hrv; subst hrv
    simp [merge]
  | tuple items => exact absurd hl not_isJson_tuple
  | list xs ih =>
    obtain ⟨zs, rfl, hxz⟩ := list_le_iff.1 hlv
    obtain ⟨ys, rfl, hyz⟩ := le_list_iff.1 hrv
    have hlen : xs.length = ys.length := hxz.length_eq.trans hyz.length_eq.symm
    rw [isJson_list] at hl hr
    rw [merge, if_pos hlen, list_le_list, mergeItems_eq_zipWith, List.forall₂_iff_get]
    refine ⟨by simp [hlen], fun i h₁ h₂ => ?_⟩
    simp only [List.get_eq_getElem, List.getElem_zipWith]
    exact ih _ (List.getElem_mem _) (hl _ (List.getElem_mem _)) (hr _ (List.getElem_mem _))
      (hxz.get (hlen ▸ h₁) (hyz.length_eq ▸ h₁)) (hyz.get h₁ (hyz.length_eq ▸ h₁))
  | object fs ih =>
    obtain ⟨hs, rfl, hfh⟩ := object_le_iff.1 hlv
    obtain ⟨gs, rfl, hgh⟩ := le_object_iff.1 hrv
    rw [isJson_object] at hl hr
    rw [merge, object_le_object]
    rintro ⟨k, y⟩ hy
    rw [lookup_mergeFields hr.1, (Fields.lookup_eq_some_iff hr.1).2 hy]
    cases hf : List.lookup k fs with
    | none => exact ⟨y, rfl, le_refl (hr.2.2 _ hy)⟩
    | some x =>
      have hx := Fields.mem_of_lookup hf
      obtain ⟨z, hz, hxz⟩ := hfh _ hx
      obtain ⟨z', hz', hyz⟩ := hgh _ hy
      obtain rfl : z = z' := Option.some.inj (hz.symm.trans hz')
      exact ⟨_, rfl, ih _ hx (hl.2.2 _ hx) (hr.2.2 _ hy) hxz hyz⟩

theorem merge_le {l r u : Value} (hl : l.IsJson) (hr : r.IsJson) (hlu : l ≤ u) (hru : r ≤ u) :
    l.merge r ≤ u := by
  induction l generalizing r u with
  | scalar s => simpa [merge] using hlu
  | tuple items => exact absurd hl not_isJson_tuple
  | list xs ih =>
    obtain ⟨zs, rfl, hxz⟩ := list_le_iff.1 hlu
    obtain ⟨ys, rfl, hyz⟩ := le_list_iff.1 hru
    have hlen : xs.length = ys.length := hxz.length_eq.trans hyz.length_eq.symm
    rw [isJson_list] at hl hr
    rw [merge, if_pos hlen, list_le_list, mergeItems_eq_zipWith, List.forall₂_iff_get]
    refine ⟨by simp [← hlen, hxz.length_eq], fun i h₁ h₂ => ?_⟩
    have hx : i < xs.length := hxz.length_eq ▸ h₂
    have hy : i < ys.length := hlen ▸ hx
    simp only [List.get_eq_getElem, List.getElem_zipWith]
    exact ih _ (List.getElem_mem _) (hl _ (List.getElem_mem _)) (hr _ (List.getElem_mem _))
      (hxz.get hx h₂) (hyz.get hy h₂)
  | object fs ih =>
    obtain ⟨hs, rfl, hfh⟩ := object_le_iff.1 hlu
    obtain ⟨gs, rfl, hgh⟩ := le_object_iff.1 hru
    rw [isJson_object] at hl hr
    rw [merge, object_le_object]
    rintro ⟨k, x⟩ hx
    rcases mem_mergeFields hl.1 hr.1 hx with ⟨l, r, hkl, hkr, rfl⟩ | hkl | hkr
    · have hl' := Fields.mem_of_lookup hkl
      have hr' := Fields.mem_of_lookup hkr
      obtain ⟨z, hz, hlz⟩ := hfh _ hl'
      obtain ⟨z', hz', hrz⟩ := hgh _ hr'
      obtain rfl : z = z' := Option.some.inj (hz.symm.trans hz')
      exact ⟨z, hz, ih _ hl' (hl.2.2 _ hl') (hr.2.2 _ hr') hlz hrz⟩
    · exact hfh _ (Fields.mem_of_lookup hkl)
    · exact hgh _ (Fields.mem_of_lookup hkr)

/-- Merging parts that are alike gives parts that are alike. -/
theorem Alike.merge {l l' r r' v : Value} (hl : l.IsJson) (hl' : l'.IsJson) (hr : r.IsJson)
    (hr' : r'.IsJson) (hlv : l ≤ v) (hrv : r ≤ v) (hll : l.Alike l') (hrr : r.Alike r') :
    (l.merge r).Alike (l'.merge r') := by
  have hlv' : l' ≤ v := le_trans hll.2 hlv
  have hrv' : r' ≤ v := le_trans hrr.2 hrv
  constructor
  · exact merge_le hl hr (le_trans hll.1 (le_merge_left hl' hr'))
      (le_trans hrr.1 (le_merge_right hl' hr' hlv' hrv'))
  · exact merge_le hl' hr' (le_trans hll.2 (le_merge_left hl hr))
      (le_trans hrr.2 (le_merge_right hl hr hlv hrv))

end Value

end SchemaGuard
