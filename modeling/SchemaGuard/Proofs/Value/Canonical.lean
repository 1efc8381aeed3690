/-
  SchemaGuard — what values of one canonical form have in common.

  * `exists_…_of_canonical_eq`: JSON data of one canonical form have one kind, and
    their parts have pairwise one canonical form;
  * `canonical_merge_eq`: joins of such data have one canonical form.
-/
import SchemaGuard.Proofs.Value.Join
import SchemaGuard.Proofs.Value.SameData

namespace SchemaGuard

namespace Value

/-! ## Kinds and parts -/

section
variable {v : Value}

theorem exists_scalar_of_canonical_eq {s : Scalar} (h : canonical (.scalar s) = v.canonical) :
    ∃ t, v = .scalar t := by
  cases v with
  | scalar t => exact ⟨t, rfl⟩
  | _ => cases s <;> simp [canonical] at h

theorem eq_of_canonical_eq {s : Scalar} (hs : ∀ n, s ≠ .number n)
    (h : canonical (.scalar s) = v.canonical) : v = .scalar s := by
  obtain ⟨t, rfl⟩ := exists_scalar_of_canonical_eq h
  cases s with
  | number n => exact absurd rfl (hs n)
  | _ => cases t <;> simp_all [canonical]

theorem exists_number_of_canonical_eq {n : Number} (h : canonical (.number n) = v.canonical) :
    ∃ m : Number, v = .number m ∧ n.normal = m.normal := by
  obtain ⟨t, rfl⟩ := exists_scalar_of_canonical_eq h
  cases t <;> simp_all [canonical]

theorem exists_list_of_canonical_eq {xs : List Value} (hv : v.IsJson)
    (h : canonical (.list xs) = v.canonical) :
    ∃ ys, v = .list ys ∧ List.Forall₂ (fun x y => x.canonical = y.canonical) xs ys := by
  cases v with
  | scalar t => cases t <;> simp [canonical] at h
  | list ys => exact ⟨ys, rfl, canonical_list_eq_iff.1 h⟩
  | tuple ys => exact absurd hv not_isJson_tuple
  | object gs => simp [canonical] at h

theorem exists_object_of_canonical_eq {fs : Fields} (hf : IsJson (.object fs)) (hv : v.IsJson)
    (h : canonical (.object fs) = v.canonical) :
    ∃ gs, v = .object gs ∧ ∀ k, (List.lookup k fs).map canonical = (List.lookup k gs).map canonical := by
  cases v with
  | scalar t => cases t <;> simp [canonical] at h
  | list ys => simp [canonical] at h
  | tuple ys => exact absurd hv not_isJson_tuple
  | object gs => exact ⟨gs, rfl, (canonical_object_eq_iff hf hv).1 h⟩

end

/-! ## Joins -/

theorem canonical_merge_eq {l l' r r' : Value} (hl : l.IsJson) (hl' : l'.IsJson) (hr : r.IsJson)
    (hr' : r'.IsJson) (hll : l.canonical = l'.canonical) (hrr : r.canonical = r'.canonical) :
    (l.merge r).canonical = (l'.merge r').canonical := by
  induction l generalizing l' r r' with
  | tuple items => exact absurd hl not_isJson_tuple
  | scalar s =>
    obtain ⟨s', rfl⟩ := exists_scalar_of_canonical_eq hll
    simpa [merge] using hll
  | list xs ih =>
    obtain ⟨xs', rfl, hxs⟩ := exists_list_of_canonical_eq hl' hll
    cases r with
    | list ys =>
      obtain ⟨ys', rfl, hys⟩ := exists_list_of_canonical_eq hr' hrr
      rw [isJson_list] at hl hl' hr hr'
      by_cases hlen : xs.length = ys.length
      · have hlen' : xs'.length = ys'.length := by rw [← hxs.length_eq, hlen, hys.length_eq]
        rw [merge, merge, if_pos hlen, if_pos hlen', canonical_list_eq_iff, mergeItems_eq_zipWith,
          mergeItems_eq_zipWith, List.forall₂_iff_get]
        refine ⟨by simp [hxs.length_eq, hys.length_eq], fun i h₁ h₂ => ?_⟩
        simp only [List.length_zipWith, lt_min_iff] at h₁ h₂
        simp only [List.get_eq_getElem, List.getElem_zipWith]
        exact ih _ (List.getElem_mem _) (hl _ (List.getElem_mem _)) (hl' _ (List.getElem_mem _))
          (hr _ (List.getElem_mem _)) (hr' _ (List.getElem_mem _)) (hxs.get h₁.1 h₂.1)
          (hys.get h₁.2 h₂.2)
      · have hlen' : xs'.length ≠ ys'.length := by rwa [← hxs.length_eq, ← hys.length_eq]
        rwa [merge, merge, if_neg hlen, if_neg hlen']
    | tuple ys => exact absurd hr not_isJson_tuple
    | scalar s =>
      obtain ⟨s', rfl⟩ := exists_scalar_of_canonical_eq hrr
      simpa [merge] using hll
    | object gs =>
      obtain ⟨gs', rfl, -⟩ := exists_object_of_canonical_eq hr hr' hrr
      simpa [merge] using hll
  | object fs ih =>
    obtain ⟨fs', rfl, hfs⟩ := exists_object_of_canonical_eq hl hl' hll
    cases r with
    | object gs =>
      obtain ⟨gs', rfl, hgs⟩ := exists_object_of_canonical_eq hr hr' hrr
      have hj := isJson_merge hl hr
      have hj' := isJson_merge hl' hr'
      rw [isJson_object] at hl hl' hr hr'
      rw [merge] at hj hj' ⊢
      rw [merge, canonical_object_eq_iff hj hj']
      intro k
      rw [lookup_mergeFields hr.1, lookup_mergeFields hr'.1]
      have hf := hfs k
      have hg := hgs k
      cases hx : List.lookup k fs with
      | none =>
        rw [hx, Option.map_none, eq_comm, Option.map_eq_none_iff] at hf
        simpa [hf] using hg
      | some x =>
        rw [hx] at hf
        obtain ⟨x', hx', hxx⟩ := Option.map_eq_some_iff.1 hf.symm
        cases hy : List.lookup k gs with
        | none =>
          rw [hy, Option.map_none, eq_comm, Option.map_eq_none_iff] at hg
          simp [hx', hg, hxx]
        | some y =>
          rw [hy] at hg
          obtain ⟨y', hy', hyy⟩ := Option.map_eq_some_iff.1 hg.symm
          have hxm := Fields.mem_of_lookup hx
          simpa [hx', hy'] using ih _ hxm (hl.2.2 _ hxm) (hl'.2.2 _ (Fields.mem_of_lookup hx'))
            (hr.2.2 _ (Fields.mem_of_lookup hy)) (hr'.2.2 _ (Fields.mem_of_lookup hy')) hxx.symm hyy.symm
    | tuple ys => exact absurd hr not_isJson_tuple
    | scalar s =>
      obtain ⟨s', rfl⟩ := exists_scalar_of_canonical_eq hrr
      simpa [merge] using hll
    | list ys =>
      obtain ⟨ys', rfl, -⟩ := exists_list_of_canonical_eq hr' hrr
      simpa [merge] using hll

end Value

end SchemaGuard
