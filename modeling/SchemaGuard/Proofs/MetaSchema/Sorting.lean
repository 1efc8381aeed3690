/-
  SchemaGuard — violations path by path, and their order by places.

  * `AlikeAtPaths xs ys`: at each path both lists have the same violations of alike values, in the
    same order. Between paths the orders may differ;
  * `placeLe_iff`: places are ordered by the tokens of their steps, and sorting by places leaves
    the order at each path as it is (`atPath_mergeSort`).

  Main result: `AlikeAtPaths.mergeSort`. Once sorted, such lists are the same violation by
  violation, if no two of the paths have the same tokens.
-/
import Mathlib
import SchemaGuard.MetaSchema.Draft
import SchemaGuard.Proofs.Value.Part

namespace SchemaGuard

/-- The same breach at the same path, by alike values. -/
structure Violation.Alike (x y : Violation) : Prop where
  path : x.path = y.path
  breach : x.breach = y.breach
  value : x.value.Alike y.value

theorem Violation.Alike.symm {x y : Violation} (h : x.Alike y) : y.Alike x :=
  ⟨h.path.symm, h.breach.symm, h.value.symm⟩

/-! ## Violations at a path -/

/-- The violations at a path, in their order. -/
def atPath (path : Path) (xs : List Violation) : List Violation := xs.filter fun x => x.path = path

section
variable {path : Path} {x : Violation} {xs ys : List Violation}

theorem mem_atPath : x ∈ atPath path xs ↔ x ∈ xs ∧ x.path = path := by
  simp [atPath]

theorem atPath_append : atPath path (xs ++ ys) = atPath path xs ++ atPath path ys := List.filter_append _ _

theorem atPath_flatMap {α : Type} (as : List α) (f : α → List Violation) :
    atPath path (as.flatMap f) = as.flatMap fun a => atPath path (f a) := List.filter_flatMap

theorem atPath_cons_self (h : x.path = path) : atPath path (x :: xs) = x :: atPath path xs :=
  List.filter_cons_of_pos (by simpa using h)

theorem atPath_cons_of_ne (h : x.path ≠ path) : atPath path (x :: xs) = atPath path xs :=
  List.filter_cons_of_neg (by simpa using h)

end

/-- At each path the same violations of alike values, in the same order. -/
def AlikeAtPaths (xs ys : List Violation) : Prop :=
  ∀ path, List.Forall₂ Violation.Alike (atPath path xs) (atPath path ys)

section
variable {x y : Violation} {xs ys xs' ys' : List Violation}

theorem AlikeAtPaths.nil : AlikeAtPaths [] [] := fun _ => .nil

theorem AlikeAtPaths.singleton (h : x.Alike y) : AlikeAtPaths [x] [y] := by
  intro path
  by_cases hx : x.path = path
  · rw [atPath_cons_self hx, atPath_cons_self (h.path ▸ hx)]
    exact .cons h .nil
  · rw [atPath_cons_of_ne hx, atPath_cons_of_ne (h.path ▸ hx)]
    exact .nil

theorem AlikeAtPaths.symm (h : AlikeAtPaths xs ys) : AlikeAtPaths ys xs := fun path =>
  List.Forall₂.flip ((h path).imp fun _ _ hxy => hxy.symm)

theorem AlikeAtPaths.append (h : AlikeAtPaths xs ys) (h' : AlikeAtPaths xs' ys') :
    AlikeAtPaths (xs ++ xs') (ys ++ ys') := by
  intro path
  rw [atPath_append, atPath_append]
  exact List.rel_append (h path) (h' path)

theorem AlikeAtPaths.flatMap {α β : Type} {R : α → β → Prop} {as : List α} {bs : List β}
    (h : List.Forall₂ R as bs) {f : α → List Violation} {g : β → List Violation}
    (hfg : ∀ a b, R a b → AlikeAtPaths (f a) (g b)) : AlikeAtPaths (as.flatMap f) (bs.flatMap g) := by
  induction h with
  | nil => exact .nil
  | cons hab _ ih => exact (hfg _ _ hab).append ih

theorem AlikeAtPaths.flatMap_congr {α : Type} {as : List α} {f g : α → List Violation}
    (h : ∀ a ∈ as, AlikeAtPaths (f a) (g a)) : AlikeAtPaths (as.flatMap f) (as.flatMap g) :=
  .flatMap (R := fun a b => a = b ∧ a ∈ as) (List.forall₂_same.2 fun _ ha => ⟨rfl, ha⟩)
    fun a _ hab => hab.1 ▸ h a hab.2

theorem AlikeAtPaths.exists_path_eq (h : AlikeAtPaths xs ys) (hx : x ∈ xs) : ∃ y ∈ ys, y.path = x.path := by
  have hpos : 0 < (atPath x.path ys).length := by
    rw [← (h x.path).length_eq]
    exact List.length_pos_of_mem (mem_atPath.2 ⟨hx, rfl⟩)
  obtain ⟨y, hy⟩ := List.exists_mem_of_length_pos hpos
  exact ⟨y, mem_atPath.1 hy⟩

theorem AlikeAtPaths.eq_nil (h : AlikeAtPaths xs []) : xs = [] := by
  refine List.eq_nil_iff_forall_not_mem.2 fun x hx => ?_
  obtain ⟨_, hmem, -⟩ := h.exists_path_eq hx
  cases hmem

theorem AlikeAtPaths.isEmpty_eq (h : AlikeAtPaths xs ys) : xs.isEmpty = ys.isEmpty := by
  rw [Bool.eq_iff_iff, List.isEmpty_iff, List.isEmpty_iff]
  constructor
  · rintro rfl
    exact h.symm.eq_nil
  · rintro rfl
    exact h.eq_nil

theorem AlikeAtPaths.of_cons (h : AlikeAtPaths (x :: xs) (y :: ys)) (hpath : x.path = y.path) :
    x.Alike y ∧ AlikeAtPaths xs ys := by
  have hhead := h x.path
  rw [atPath_cons_self rfl, atPath_cons_self hpath.symm, List.forall₂_cons] at hhead
  refine ⟨hhead.1, fun path => ?_⟩
  by_cases hx : x.path = path
  · rw [← hx]
    exact hhead.2
  · have htail := h path
    rwa [atPath_cons_of_ne hx, atPath_cons_of_ne (hpath ▸ hx)] at htail

end

/-! ## Order by places -/

section
variable {x y : Violation}

theorem placeLe_iff : placeLe x y ↔ x.path.map Step.token ≤ y.path.map Step.token := by
  rw [placeLe, Bool.not_eq_true', ← Bool.not_eq_true, List.lex_eq_true_iff_lt, not_lt]

theorem placeLe_trans (x y z : Violation) (hxy : placeLe x y) (hyz : placeLe y z) : placeLe x z :=
  placeLe_iff.2 ((placeLe_iff.1 hxy).trans (placeLe_iff.1 hyz))

theorem placeLe_total (x y : Violation) : placeLe x y || placeLe y x := by
  rw [Bool.or_eq_true, placeLe_iff, placeLe_iff]
  exact le_total _ _

theorem placeLe_of_path_eq (h : x.path = y.path) : placeLe x y := by
  rw [placeLe_iff, h]

/-- Sorting by places is stable. -/
theorem atPath_mergeSort (path : Path) (xs : List Violation) :
    atPath path (xs.mergeSort placeLe) = atPath path xs := by
  have hsorted : (atPath path xs).Pairwise fun x y => placeLe x y :=
    List.pairwise_of_forall_mem_list fun x hx y hy =>
      placeLe_of_path_eq ((mem_atPath.1 hx).2.trans (mem_atPath.1 hy).2.symm)
  have hsub : (atPath path xs).Sublist (xs.mergeSort placeLe) :=
    List.sublist_mergeSort placeLe_trans placeLe_total hsorted List.filter_sublist
  have hsub' : (atPath path (atPath path xs)).Sublist (atPath path (xs.mergeSort placeLe)) := hsub.filter _
  rw [atPath, atPath, List.filter_filter] at hsub'
  simp only [Bool.and_self] at hsub'
  exact (hsub'.eq_of_length ((List.mergeSort_perm xs placeLe).filter _).length_eq.symm).symm

end

section
variable {xs ys : List Violation}

/-- The first place of a sorted list comes before the others. -/
theorem tokens_le_of_pairwise {x y : Violation} (hxs : (x :: xs).Pairwise fun x y => placeLe x y)
    (hy : y ∈ x :: xs) : x.path.map Step.token ≤ y.path.map Step.token := by
  rcases List.mem_cons.1 hy with rfl | hy
  · exact le_rfl
  · exact placeLe_iff.1 (List.rel_of_pairwise_cons hxs hy)

/-- Sorted lists that are the same at each path are the same violation by violation. -/
theorem AlikeAtPaths.forall₂_of_pairwise (h : AlikeAtPaths xs ys) (hxs : xs.Pairwise fun x y => placeLe x y)
    (hys : ys.Pairwise fun x y => placeLe x y)
    (htokens : ∀ x ∈ xs, ∀ y ∈ xs, x.path.map Step.token = y.path.map Step.token → x.path = y.path) :
    List.Forall₂ Violation.Alike xs ys := by
  induction xs generalizing ys with
  | nil =>
    rw [h.symm.eq_nil]
    exact .nil
  | cons x xs ih =>
    cases ys with
    | nil => cases h.eq_nil
    | cons y ys =>
      -- the first places are equal, as each list has a violation at the first path of the other
      obtain ⟨y', hy', hxy'⟩ := h.exists_path_eq (x := x) List.mem_cons_self
      obtain ⟨x', hx', hyx'⟩ := h.symm.exists_path_eq (x := y) List.mem_cons_self
      have hxy : x.path.map Step.token = y.path.map Step.token :=
        le_antisymm (hyx' ▸ tokens_le_of_pairwise hxs hx') (hxy' ▸ tokens_le_of_pairwise hys hy')
      have hpath : x.path = y.path := by
        rw [← hyx'] at hxy ⊢
        exact htokens x List.mem_cons_self x' hx' hxy
      obtain ⟨hhead, htail⟩ := h.of_cons hpath
      refine .cons hhead (ih htail hxs.of_cons hys.of_cons fun a ha b hb => ?_)
      exact htokens a (List.mem_cons_of_mem _ ha) b (List.mem_cons_of_mem _ hb)

/-- Sorting by places leaves no difference in order, if no two paths have the same tokens. -/
theorem AlikeAtPaths.mergeSort (h : AlikeAtPaths xs ys)
    (htokens : ∀ x ∈ xs, ∀ y ∈ xs, x.path.map Step.token = y.path.map Step.token → x.path = y.path) :
    List.Forall₂ Violation.Alike (xs.mergeSort placeLe) (ys.mergeSort placeLe) := by
  have halike : AlikeAtPaths (xs.mergeSort placeLe) (ys.mergeSort placeLe) := fun path => by
    rw [atPath_mergeSort, atPath_mergeSort]
    exact h path
  have hsorted : ∀ zs : List Violation, (zs.mergeSort placeLe).Pairwise fun x y => placeLe x y :=
    List.pairwise_mergeSort placeLe_trans placeLe_total
  refine halike.forall₂_of_pairwise (hsorted xs) (hsorted ys) fun x hx y hy => ?_
  exact htokens x (List.mem_mergeSort.1 hx) y (List.mem_mergeSort.1 hy)

end

end SchemaGuard
