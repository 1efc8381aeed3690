/-
  SchemaGuard — repeated elements do not depend on the order of fields.

  Both comparisons of values in the search for repeats, `agrees` and `equals`, go part by part and
  look fields up by their keys (`ComparesParts`), so reordered values compare alike. The order of
  elements is told from these comparisons, and the search from both: `hasRepeats_congr`.
-/
import SchemaGuard.MetaSchema.Duplicates
import SchemaGuard.Proofs.Value.Reordering

namespace SchemaGuard

namespace Value

/-! ## Comparisons part by part -/

/-- A comparison of JSON data that compares lists element by element and fields with the ones under
    the same keys. -/
structure ComparesParts (compare : Value → Value → Bool) : Prop where
  list : ∀ xs ys : List Value, compare (.list xs) (.list ys) ↔ List.Forall₂ (fun x y => compare x y) xs ys
  object : ∀ fs gs : Fields, compare (.object fs) (.object gs) ↔ fs.length = gs.length ∧
    ∀ f ∈ fs, ∃ y, List.lookup f.1 gs = some y ∧ compare f.2 y
  scalar_list : ∀ s xs, ¬ compare (.scalar s) (.list xs)
  scalar_object : ∀ s fs, ¬ compare (.scalar s) (.object fs)
  list_scalar : ∀ xs s, ¬ compare (.list xs) (.scalar s)
  list_object : ∀ xs fs, ¬ compare (.list xs) (.object fs)
  object_scalar : ∀ fs s, ¬ compare (.object fs) (.scalar s)
  object_list : ∀ fs xs, ¬ compare (.object fs) (.list xs)

theorem agreesItems_iff : ∀ {xs ys : List Value}, agreesItems xs ys ↔ List.Forall₂ (fun x y => x.agrees y) xs ys
  | [], [] => by simp [agreesItems]
  | [], _ :: _ => by simp [agreesItems]
  | _ :: _, [] => by simp [agreesItems]
  | x :: xs, y :: ys => by simp [agreesItems, @agreesItems_iff xs ys]

theorem agreesFields_iff {gs : Fields} : ∀ {fs : Fields},
    agreesFields fs gs ↔ ∀ f ∈ fs, ∃ y, List.lookup f.1 gs = some y ∧ f.2.agrees y
  | [] => by simp [agreesFields]
  | (k, x) :: fs => by
    simp only [agreesFields, Bool.and_eq_true, @agreesFields_iff gs fs, List.forall_mem_cons]
    refine and_congr_left fun _ => ?_
    cases List.lookup k gs <;> simp

theorem equalsItems_iff : ∀ {xs ys : List Value}, equalsItems xs ys ↔ List.Forall₂ (fun x y => x.equals y) xs ys
  | [], [] => by simp [equalsItems]
  | [], _ :: _ => by simp [equalsItems]
  | _ :: _, [] => by simp [equalsItems]
  | x :: xs, y :: ys => by simp [equalsItems, @equalsItems_iff xs ys]

theorem equalsFields_iff {gs : Fields} : ∀ {fs : Fields},
    equalsFields fs gs ↔ ∀ f ∈ fs, ∃ y, List.lookup f.1 gs = some y ∧ f.2.equals y
  | [] => by simp [equalsFields]
  | (k, x) :: fs => by
    simp only [equalsFields, Bool.and_eq_true, @equalsFields_iff gs fs, List.forall_mem_cons]
    refine and_congr_left fun _ => ?_
    cases List.lookup k gs <;> simp

theorem comparesParts_agrees : ComparesParts agrees where
  list xs ys := by rw [agrees, agreesItems_iff]
  object fs gs := by rw [agrees, Bool.and_eq_true, beq_iff_eq, agreesFields_iff]
  scalar_list _ _ := by simp [agrees]
  scalar_object _ _ := by simp [agrees]
  list_scalar _ _ := by simp [agrees]
  list_object _ _ := by simp [agrees]
  object_scalar _ _ := by simp [agrees]
  object_list _ _ := by simp [agrees]

theorem comparesParts_equals : ComparesParts equals where
  list xs ys := by rw [equals, equalsItems_iff]
  object fs gs := by rw [equals, Bool.and_eq_true, beq_iff_eq, equalsFields_iff]
  scalar_list _ _ := by simp [equals]
  scalar_object _ _ := by simp [equals]
  list_scalar _ _ := by simp [equals]
  list_object _ _ := by simp [equals]
  object_scalar _ _ := by simp [equals]
  object_list _ _ := by simp [equals]

section
variable {compare : Value → Value → Bool} (hcompare : ComparesParts compare)
include hcompare

theorem ComparesParts.of_reordered {v v' w w' : Value} (hv : v.Reordered v') (hw : w.Reordered w')
    (h : compare v w) : compare v' w' := by
  induction v generalizing v' w w' with
  | tuple items => exact absurd hv.left not_isJson_tuple
  | scalar s =>
    cases hv.rearrangement
    cases hw.rearrangement with
    | scalar t => exact h
    | list => exact absurd h (hcompare.scalar_list _ _)
    | object => exact absurd h (hcompare.scalar_object _ _)
  | list xs ih =>
    cases hv.rearrangement with
    | @list _ xs' hxs =>
    cases hw.rearrangement with
    | scalar => exact absurd h (hcompare.list_scalar _ _)
    | object => exact absurd h (hcompare.list_object _ _)
    | @list ys ys' hys =>
      rw [hcompare.list] at h ⊢
      refine List.forall₂_iff_get.2 ⟨?_, fun i hx hy => ?_⟩
      · rw [← hxs.length_eq, h.length_eq, hys.length_eq]
      · have hix : i < xs.length := hxs.length_eq ▸ hx
        have hiy : i < ys.length := hys.length_eq ▸ hy
        exact ih _ (List.getElem_mem _) (hxs.get hix hx) (hys.get hiy hy) (h.get hix hiy)
  | object fs ih =>
    cases hv.rearrangement with
    | @object _ fs' hnodup hfkeys hfs =>
    cases hw.rearrangement with
    | scalar => exact absurd h (hcompare.object_scalar _ _)
    | list => exact absurd h (hcompare.object_list _ _)
    | @object gs gs' _ hgkeys hgs =>
      rw [hcompare.object] at h ⊢
      obtain ⟨hlength, hfields⟩ := h
      constructor
      · rw [← Fields.length_eq_of_perm hfkeys, hlength, Fields.length_eq_of_perm hgkeys]
      · -- back to the fields with the same key in `fs` and `gs`, which are compared already
        intro f' hf'
        have hx' := (Fields.lookup_eq_some_iff (hfkeys.nodup_iff.1 hnodup)).2 hf'
        obtain ⟨x, hx, hxx'⟩ := Fields.exists_lookup_right hfs hx'
        have hmem := Fields.mem_of_lookup hx
        obtain ⟨y, hy, hxy⟩ := hfields _ hmem
        obtain ⟨y', hy', hyy'⟩ := Fields.exists_lookup_left hgs hy
        exact ⟨y', hy', ih _ hmem hxx' hyy' hxy⟩

/-- Reordered values compare alike. -/
theorem ComparesParts.eq_of_reordered {v v' w w' : Value} (hv : v.Reordered v') (hw : w.Reordered w') :
    compare v w = compare v' w' :=
  Bool.eq_iff_iff.2 ⟨hcompare.of_reordered hv hw, hcompare.of_reordered hv.symm hw.symm⟩

end

/-! ## The order of elements -/

section
variable {v v' w w' : Value}

theorem agrees_congr (hv : v.Reordered v') (hw : w.Reordered w') : v.agrees w = v'.agrees w' :=
  comparesParts_agrees.eq_of_reordered hv hw

theorem equals_congr (hv : v.Reordered v') (hw : w.Reordered w') : v.equals w = v'.equals w' :=
  comparesParts_equals.eq_of_reordered hv hw

theorem precedesItems?_congr {xs xs' ys ys' : List Value} (hxs : List.Forall₂ Reordered xs xs')
    (hys : List.Forall₂ Reordered ys ys')
    (h : ∀ x ∈ xs, ∀ {x' y y' : Value}, x.Reordered x' → y.Reordered y' → x.precedes? y = x'.precedes? y') :
    precedesItems? xs ys = precedesItems? xs' ys' := by
  induction hxs generalizing ys ys' with
  | nil => cases hys <;> simp [precedesItems?]
  | cons hx _ ih =>
    cases hys with
    | nil => simp [precedesItems?]
    | cons hy hys =>
      rw [List.forall_mem_cons] at h
      rw [precedesItems?, precedesItems?, equals_congr hx hy, ih hys h.2, h.1 hx hy]

theorem precedes?_congr (hv : v.Reordered v') (hw : w.Reordered w') : v.precedes? w = v'.precedes? w' := by
  induction v generalizing v' w w' with
  | tuple items => exact absurd hv.left not_isJson_tuple
  | scalar s =>
    cases hv.rearrangement
    cases hw.rearrangement with
    | scalar t => rfl
    | _ => cases s <;> rfl
  | list xs ih =>
    cases hv.rearrangement with
    | @list _ xs' hxs =>
    cases hw.rearrangement with
    | list hys =>
      rw [precedes?, precedes?]
      exact precedesItems?_congr hxs hys fun x hx _ _ _ => ih x hx
    | _ => rfl
  | object fs ih =>
    cases hv.rearrangement
    rfl

theorem elementPrecedes?_congr (hv : v.Reordered v') (hw : w.Reordered w') :
    v.elementPrecedes? w = v'.elementPrecedes? w' := by
  have hprecedes := precedes?_congr hv hw
  unfold elementPrecedes?
  cases hv.rearrangement with
  | scalar s =>
    cases hw.rearrangement with
    | scalar t => rfl
    | _ => cases s <;> rfl
  | _ =>
    cases hw.rearrangement with
    | scalar t => cases t <;> rfl
    | _ => exact hprecedes

end

/-! ## The search for repeats -/

section
variable {xs ys : List Value}

theorem insertOrdered?_rel {x y : Value} (hxy : x.Reordered y) (h : List.Forall₂ Reordered xs ys) :
    Option.Rel (List.Forall₂ Reordered) (insertOrdered? x xs) (insertOrdered? y ys) := by
  induction h with
  | nil => exact .some (.cons hxy .nil)
  | @cons a b xs ys hab hxs ih =>
    rw [insertOrdered?, insertOrdered?, elementPrecedes?_congr hxy hab]
    rcases y.elementPrecedes? b with _ | _ | _
    · exact .none
    · generalize insertOrdered? x xs = o, insertOrdered? y ys = o' at ih
      cases ih with
      | none => exact .none
      | some h => exact .some (.cons hab h)
    · exact .some (.cons hxy (.cons hab hxs))

theorem foldlM_insertOrdered?_rel {sorted sorted' : List Value} (h : List.Forall₂ Reordered xs ys)
    (hsorted : List.Forall₂ Reordered sorted sorted') :
    Option.Rel (List.Forall₂ Reordered) (xs.foldlM (fun sorted x => insertOrdered? x sorted) sorted)
      (ys.foldlM (fun sorted x => insertOrdered? x sorted) sorted') := by
  induction h generalizing sorted sorted' with
  | nil => exact .some hsorted
  | @cons x y xs ys hxy _ ih =>
    rw [List.foldlM_cons, List.foldlM_cons]
    have hinsert := insertOrdered?_rel hxy hsorted
    generalize insertOrdered? x sorted = o, insertOrdered? y sorted' = o' at hinsert
    cases hinsert with
    | none => exact .none
    | some h => exact ih h

theorem ordered?_rel (h : List.Forall₂ Reordered xs ys) :
    Option.Rel (List.Forall₂ Reordered) (ordered? xs) (ordered? ys) :=
  foldlM_insertOrdered?_rel h .nil

theorem neighboursAgree_congr (h : List.Forall₂ Reordered xs ys) : neighboursAgree xs = neighboursAgree ys := by
  induction h with
  | nil => rfl
  | cons hxy h ih =>
    cases h with
    | nil => rfl
    | cons hab _ => rw [neighboursAgree, neighboursAgree, agrees_congr hxy hab, ih]

theorem any_agrees_congr {x y : Value} (hxy : x.Reordered y) (h : List.Forall₂ Reordered xs ys) :
    xs.any x.agrees = ys.any y.agrees := by
  induction h with
  | nil => rfl
  | cons hab _ ih => rw [List.any_cons, List.any_cons, agrees_congr hxy hab, ih]

theorem someAgree_congr (h : List.Forall₂ Reordered xs ys) : someAgree xs = someAgree ys := by
  induction h with
  | nil => rfl
  | cons hxy h ih => rw [someAgree, someAgree, any_agrees_congr hxy h, ih]

/-- Whether an element is repeated does not depend on the order of fields in the elements. -/
theorem hasRepeats_congr (h : List.Forall₂ Reordered xs ys) : hasRepeats xs = hasRepeats ys := by
  have hordered := ordered?_rel h
  unfold hasRepeats
  generalize ordered? xs = o, ordered? ys = o' at hordered
  cases hordered with
  | none => exact someAgree_congr h
  | some hsorted => exact neighboursAgree_congr hsorted

end

end Value

end SchemaGuard
