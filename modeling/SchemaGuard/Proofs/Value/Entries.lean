/-
  SchemaGuard — what several copies of one value keep together.

  An entry of a value is a place in it, reached by a path.

  * `part?_of_le`: the entries of a part of a value are entries of the value, with
    the same leaves and lengths;
  * `isSome_part?_merge`: the merge of two parts of one value has the entries of both;
  * `IsJoin v S o`: among the parts of `v` that have the parts in `S` as parts, `o` is the
    least, and it has no entry that none of them has. Joins are alike
    (`IsJoin.alike`), and joins of joins are joins (`IsJoin.merge`).
-/
import Mathlib
import SchemaGuard.Proofs.Value.Join
import SchemaGuard.Proofs.Value.Location

namespace SchemaGuard

namespace Value

/-! ## Entries of parts -/

section
variable {v w x : Value} {step : Step}

theorem IsJson.enter? (hv : v.IsJson) (h : v.enter? step = some x) : x.IsJson := by
  cases step with
  | key name =>
    cases v with
    | object fields => exact hv.named? h
    | _ => cases h
  | index i =>
    cases v with
    | list items => exact isJson_list.1 hv _ (List.mem_of_getElem? h)
    | tuple items => exact absurd hv not_isJson_tuple
    | _ => cases h

theorem enter?_of_le (hle : w ≤ v) (h : w.enter? step = some x) :
    ∃ y, v.enter? step = some y ∧ x ≤ y := by
  cases w with
  | scalar s => cases step <;> cases h
  | object fs =>
    obtain ⟨gs, rfl, hfg⟩ := object_le_iff.1 hle
    cases step with
    | index i => cases h
    | key name =>
      obtain ⟨y, hy, hxy⟩ := hfg _ (Fields.mem_of_named? h)
      exact ⟨y, (Fields.named?_eq_lookup gs name).trans hy, hxy⟩
  | list xs | tuple xs =>
    first
      | obtain ⟨ys, rfl, hxy⟩ := list_le_iff.1 hle
      | obtain ⟨ys, rfl, hxy⟩ := tuple_le_iff.1 hle
    cases step with
    | key name => cases h
    | index i =>
      obtain ⟨hi, rfl⟩ := List.getElem?_eq_some_iff.1 h
      have hi' : i < ys.length := hxy.length_eq ▸ hi
      exact ⟨ys[i], List.getElem?_eq_getElem hi', hxy.get hi hi'⟩

/-- An entry of a part of a value is an entry of the value, of which it is a part. -/
theorem part?_of_le {path : Path} (hle : w ≤ v) (h : w.part? path = some x) :
    ∃ y, v.part? path = some y ∧ x ≤ y := by
  induction path generalizing w v with
  | nil => cases h; exact ⟨v, rfl, hle⟩
  | cons step path ih =>
    obtain ⟨z, hz, h⟩ := Option.bind_eq_some_iff.1 h
    obtain ⟨z', hz', hle⟩ := enter?_of_le hle hz
    obtain ⟨y, hy, hxy⟩ := ih hle h
    exact ⟨y, by rw [part?_cons, hz', Option.bind_some, hy], hxy⟩

end

/-! ## Entries of a merge -/

section
variable {v l r : Value}

/-- A step into the merge of two parts leads to what the parts have there. -/
theorem enter?_merge (hl : l.IsJson) (hr : r.IsJson) (hlv : l ≤ v) (hrv : r ≤ v) (step : Step) :
    (l.merge r).enter? step =
      match l.enter? step, r.enter? step with
      | some x, some y => some (x.merge y)
      | some x, none => some x
      | none, y => y := by
  cases l with
  | scalar s =>
    rw [scalar_le_iff] at hlv; subst hlv
    rw [le_scalar_iff] at hrv; subst hrv
    cases step <;> rfl
  | tuple items => exact absurd hl not_isJson_tuple
  | list xs =>
    obtain ⟨zs, rfl, hxz⟩ := list_le_iff.1 hlv
    obtain ⟨ys, rfl, hyz⟩ := le_list_iff.1 hrv
    have hlen : xs.length = ys.length := hxz.length_eq.trans hyz.length_eq.symm
    rw [merge, if_pos hlen, mergeItems_eq_zipWith]
    cases step with
    | key name => rfl
    | index i =>
      simp only [enter?, List.getElem?_zipWith]
      by_cases hi : i < xs.length
      · rw [List.getElem?_eq_getElem hi, List.getElem?_eq_getElem (hlen ▸ hi)]
      · rw [List.getElem?_eq_none (Nat.le_of_not_lt hi), List.getElem?_eq_none (hlen ▸ Nat.le_of_not_lt hi)]
  | object fs =>
    obtain ⟨hs, rfl, -⟩ := object_le_iff.1 hlv
    obtain ⟨gs, rfl, -⟩ := le_object_iff.1 hrv
    rw [merge]
    cases step with
    | index i => rfl
    | key name =>
      simp only [enter?, Fields.named?_eq_lookup]
      exact lookup_mergeFields (isJson_object.1 hr).1 _ fs

/-- **The merge of two parts of one value has the entries of both**, and no others. -/
theorem isSome_part?_merge (hl : l.IsJson) (hr : r.IsJson) (hlv : l ≤ v) (hrv : r ≤ v) (path : Path) :
    ((l.merge r).part? path).isSome ↔ (l.part? path).isSome ∨ (r.part? path).isSome := by
  induction path generalizing v l r with
  | nil => simp
  | cons step path ih =>
    rw [part?_cons, part?_cons, part?_cons, enter?_merge hl hr hlv hrv]
    cases hx : l.enter? step with
    | none => simp
    | some x =>
      cases hy : r.enter? step with
      | none => simp
      | some y =>
        obtain ⟨z, hz, hxz⟩ := enter?_of_le hlv hx
        obtain ⟨z', hz', hyz⟩ := enter?_of_le hrv hy
        obtain rfl : z = z' := Option.some.inj (hz.symm.trans hz')
        exact ih (hl.enter? hx) (hr.enter? hy) hxz hyz

end

/-! ## Joins -/

/-- Two values are the same leaf, or are no leaves and have, if they are lists, the
    same length. -/
structure SameFrame (x y : Value) : Prop where
  leaf : ∀ s, x = .scalar s ↔ y = .scalar s
  length : x.elements?.map List.length = y.elements?.map List.length

theorem SameFrame.of_le {x y : Value} (h : x ≤ y) : SameFrame x y := by
  refine ⟨fun s => ⟨?_, ?_⟩, ?_⟩
  · rintro rfl; exact scalar_le_iff.1 h
  · rintro rfl; exact le_scalar_iff.1 h
  · cases x with
    | scalar s => rw [scalar_le_iff.1 h]
    | list xs => obtain ⟨ys, rfl, hxy⟩ := list_le_iff.1 h; simp [elements?, hxy.length_eq]
    | tuple xs => obtain ⟨ys, rfl, hxy⟩ := tuple_le_iff.1 h; simp [elements?, hxy.length_eq]
    | object fs => obtain ⟨gs, rfl, -⟩ := object_le_iff.1 h; rfl

/-- A value is what some copies of `v` keep together: the least part of `v` that has
    them as parts. It has the entries that one of them has; leaves and lengths are
    those of `v`. -/
structure IsJoin (v : Value) (copies : Set Value) (o : Value) : Prop where
  isJson : o.IsJson
  le : o ≤ v
  upper : ∀ x ∈ copies, x ≤ o
  least : ∀ u : Value, (∀ x ∈ copies, x ≤ u) → o ≤ u
  entries : ∀ path, (o.part? path).isSome ↔ ∃ x ∈ copies, (x.part? path).isSome
  frame : ∀ path x, o.part? path = some x → ∃ y, v.part? path = some y ∧ SameFrame x y

section
variable {v o o' l r : Value} {S T : Set Value}

theorem frame_of_le (h : o ≤ v) (path : Path) (x : Value) (hx : o.part? path = some x) :
    ∃ y, v.part? path = some y ∧ SameFrame x y := by
  obtain ⟨y, hy, hxy⟩ := part?_of_le h hx
  exact ⟨y, hy, .of_le hxy⟩

theorem isJoin_singleton (ho : o.IsJson) (hov : o ≤ v) : IsJoin v {o} o where
  isJson := ho
  le := hov
  upper := by rintro x rfl; exact le_refl ho
  least := fun u hu => hu o rfl
  entries := by simp
  frame := frame_of_le hov

/-- The merge of two joins joins all copies. -/
theorem IsJoin.merge (hl : IsJoin v S l) (hr : IsJoin v T r) : IsJoin v (S ∪ T) (l.merge r) where
  isJson := isJson_merge hl.isJson hr.isJson
  le := merge_le hl.isJson hr.isJson hl.le hr.le
  upper := by
    rintro x (hx | hx)
    · exact le_trans (hl.upper x hx) (le_merge_left hl.isJson hr.isJson)
    · exact le_trans (hr.upper x hx) (le_merge_right hl.isJson hr.isJson hl.le hr.le)
  least := fun u hu => merge_le hl.isJson hr.isJson (hl.least u fun x hx => hu x (Or.inl hx))
    (hr.least u fun x hx => hu x (Or.inr hx))
  entries := fun path => by
    rw [isSome_part?_merge hl.isJson hr.isJson hl.le hr.le, hl.entries, hr.entries]
    simp only [Set.mem_union, or_and_right, exists_or]
  frame := frame_of_le (merge_le hl.isJson hr.isJson hl.le hr.le)

/-- Copies are joined to one value only, up to the order of fields. -/
theorem IsJoin.alike (h : IsJoin v S o) (h' : IsJoin v S o') : o.Alike o' :=
  ⟨h.least o' h'.upper, h'.least o h.upper⟩

/-- The merge of two parts of a value is their join. -/
theorem isJoin_merge (hl : l.IsJson) (hr : r.IsJson) (hlv : l ≤ v) (hrv : r ≤ v) :
    IsJoin v {l, r} (l.merge r) :=
  (isJoin_singleton hl hlv).merge (isJoin_singleton hr hrv)

end

end Value

end SchemaGuard
