/-
  SchemaGuard — checks do not depend on where a value and a schema are.

  Paths and pointers are only written into issues (`check_moved`):

  * `Issue.under r` is an issue whose place is reached through `r`, its causes
    included. Checking a value at the path `r ++ path` gives the outcome of the check
    at `path` with all issues under `r` (`check_append`);
  * `mapPointers f` applies `f` to the pointers of a tree or of an issue. Checking
    with the one tree finds the issues of the other so changed (`check_mapPointers`).
-/
import Mathlib.Data.List.Forall2
import SchemaGuard.Proofs.Validator.Tree
import SchemaGuard.Validator.Check

namespace SchemaGuard

/-! ## Computations that may end with a fault -/

section
variable {ε α β : Type}

theorem bind_eq_ok_iff {x : Except ε α} {f : α → Except ε β} {b : β} :
    x >>= f = .ok b ↔ ∃ a, x = .ok a ∧ f a = .ok b := by
  cases x <;> simp [bind, Except.bind]

/-- Computations with the same results as far as `g` tells, or the same fault, go
    on to the same results as far as `h` tells. -/
theorem map_bind_congr {γ δ : Type} {x y : Except ε α} {g : α → γ} {h : β → δ}
    {f f' : α → Except ε β} (hxy : x.map g = y.map g)
    (hf : ∀ a b, g a = g b → (f a).map h = (f' b).map h) : (x >>= f).map h = (y >>= f').map h := by
  rcases x with e | a <;> rcases y with e' | b
  · rw [Except.error.inj hxy]; rfl
  · cases hxy
  · cases hxy
  · exact hf a b (Except.ok.inj hxy)

theorem bind_eq_map_bind {γ δ : Type} {x : Except ε α} {y : Except ε γ} {g : γ → α} {h : δ → β}
    {f : α → Except ε β} {f' : γ → Except ε δ} (hxy : x = y.map g)
    (hf : ∀ c, f (g c) = (f' c).map h) : x >>= f = (y >>= f').map h := by
  subst hxy
  cases y with
  | error e => rfl
  | ok c => exact hf c

theorem mapM_eq_ok_iff {f : α → Except ε β} {xs : List α} {ys : List β} :
    xs.mapM f = .ok ys ↔ List.Forall₂ (fun x y => f x = .ok y) xs ys := by
  induction xs generalizing ys with
  | nil => cases ys <;> simp [pure, Except.pure]
  | cons x xs ih =>
    rw [List.mapM_cons]
    simp only [bind_eq_ok_iff, ih, pure, Except.pure, Except.ok.injEq]
    constructor
    · rintro ⟨y, hy, ys', hys, rfl⟩; exact .cons hy hys
    · rintro (_ | ⟨hy, hys⟩); exact ⟨_, hy, _, hys, rfl⟩

theorem exists_forall₂ {R : α → β → Prop} {xs : List α} (h : ∀ x ∈ xs, ∃ y, R x y) :
    ∃ ys, List.Forall₂ R xs ys := by
  induction xs with
  | nil => exact ⟨[], .nil⟩
  | cons x xs ih =>
    obtain ⟨y, hy⟩ := h x (by simp)
    obtain ⟨ys, hys⟩ := ih fun x hx => h x (by simp [hx])
    exact ⟨y :: ys, .cons hy hys⟩

theorem forall₂_left {R : α → β → Prop} {xs : List α} {ys : List β} (h : List.Forall₂ R xs ys)
    {x : α} (hx : x ∈ xs) : ∃ y ∈ ys, R x y := by
  induction h with
  | nil => cases hx
  | cons hxy _ ih =>
    rcases List.mem_cons.1 hx with rfl | hx
    · exact ⟨_, by simp, hxy⟩
    · obtain ⟨y, hy, hxy⟩ := ih hx
      exact ⟨y, by simp [hy], hxy⟩

theorem forall₂_right {R : α → β → Prop} {Q : β → Prop} {xs : List α} {ys : List β}
    (h : List.Forall₂ R xs ys) (hQ : ∀ x ∈ xs, ∀ y, R x y → Q y) : ∀ y ∈ ys, Q y := by
  induction h with
  | nil => nofun
  | cons hxy _ ih =>
    exact List.forall_mem_cons.2 ⟨hQ _ (by simp) _ hxy, ih fun x hx => hQ x (by simp [hx])⟩

theorem forall_mem_congr {R : α → β → Prop} {P : α → Prop} {Q : β → Prop} {xs : List α} {ys : List β}
    (h : List.Forall₂ R xs ys) (hPQ : ∀ x y, R x y → (P x ↔ Q y)) :
    (∀ x ∈ xs, P x) ↔ ∀ y ∈ ys, Q y := by
  induction h with
  | nil => exact iff_of_true nofun nofun
  | cons hxy _ ih => rw [List.forall_mem_cons, List.forall_mem_cons, hPQ _ _ hxy, ih]

theorem exists_mem_congr {R : α → β → Prop} {P : α → Prop} {Q : β → Prop} {xs : List α} {ys : List β}
    (h : List.Forall₂ R xs ys) (hPQ : ∀ x y, R x y → (P x ↔ Q y)) :
    (∃ x ∈ xs, P x) ↔ ∃ y ∈ ys, Q y := by
  have hnone := forall_mem_congr h fun x y hxy => not_congr (hPQ x y hxy)
  simpa using not_congr hnone

theorem mapM_map_outcome {γ : Type} (f : α → Except ε β) (g : β → γ) (xs : List α) :
    xs.mapM (fun x => (f x).map g) = (xs.mapM f).map (List.map g) := by
  induction xs with
  | nil => rfl
  | cons x xs ih =>
    rw [List.mapM_cons, List.mapM_cons, ih]
    cases f x <;> cases xs.mapM f <;> rfl

end

/-! ## Issues in other places -/

namespace Issue

mutual
/-- An issue whose place is reached through a path. -/
def under (r : Path) : Issue → Issue
  | mk pointer path finding causes => mk pointer (r ++ path) finding (underAll r causes)
/-- Issues whose places are reached through a path. -/
def underAll (r : Path) : List Issue → List Issue
  | [] => []
  | i :: is => i.under r :: underAll r is
end

theorem underAll_eq_map (r : Path) (issues : List Issue) :
    underAll r issues = issues.map (under r) := by
  induction issues with
  | nil => rfl
  | cons i is ih => rw [underAll, ih, List.map_cons]

mutual
/-- An issue with `f` applied to the pointers of the schema nodes in it. -/
def mapPointers (f : String → String) : Issue → Issue
  | mk pointer path finding causes => mk (f pointer) path finding (mapPointersAll f causes)
/-- Issues with `f` applied to the pointers of the schema nodes in them. -/
def mapPointersAll (f : String → String) : List Issue → List Issue
  | [] => []
  | i :: is => i.mapPointers f :: mapPointersAll f is
end

theorem mapPointersAll_eq_map (f : String → String) (issues : List Issue) :
    mapPointersAll f issues = issues.map (mapPointers f) := by
  induction issues with
  | nil => rfl
  | cons i is ih => rw [mapPointersAll, ih, List.map_cons]

/-- A map on issues that applies `f` to their pointers and puts `r` before their
    paths, at every depth. -/
def Moves (f : String → String) (r : Path) (g : Issue → Issue) : Prop :=
  ∀ p path finding causes, g (.mk p path finding causes) = .mk (f p) (r ++ path) finding (causes.map g)

theorem moves_under (r : Path) : Moves id r (under r) := fun p path finding causes => by
  rw [under, underAll_eq_map, id]

theorem moves_mapPointers (f : String → String) : Moves f [] (mapPointers f) :=
  fun p path finding causes => by rw [mapPointers, mapPointersAll_eq_map, List.nil_append]

end Issue

namespace Validator

/-! ## Trees at other pointers -/

mutual
/-- The tree with `f` applied to the pointers of its nodes. -/
def mapPointers (f : String → String) : Validator → Validator
  | any p => any (f p)
  | never p => never (f p)
  | literal p expected => literal (f p) expected
  | options p choices => options (f p) choices
  | union p branches => union (f p) (mapPointersAll f branches)
  | both p left right => both (f p) (left.mapPointers f) (right.mapPointers f)
  | kind p expected => kind (f p) expected
  | text p rules => text (f p) rules
  | number p rules => number (f p) rules
  | list p items rules => list (f p) (items.mapPointers f) rules
  | object p properties required closedness =>
    object (f p) (mapPointersProperties f properties) required closedness
/-- The trees with `f` applied to the pointers of their nodes. -/
def mapPointersAll (f : String → String) : List Validator → List Validator
  | [] => []
  | v :: vs => v.mapPointers f :: mapPointersAll f vs
/-- The trees of properties with `f` applied to the pointers of their nodes. -/
def mapPointersProperties (f : String → String) :
    List (String × Validator) → List (String × Validator)
  | [] => []
  | (name, v) :: ps => (name, v.mapPointers f) :: mapPointersProperties f ps
end

theorem mapPointersAll_eq_map (f : String → String) (vs : List Validator) :
    mapPointersAll f vs = vs.map (mapPointers f) := by
  induction vs with
  | nil => rfl
  | cons v vs ih => rw [mapPointersAll, ih, List.map_cons]

theorem mapPointersProperties_eq_map (f : String → String) (ps : List (String × Validator)) :
    mapPointersProperties f ps = ps.map (Prod.map id (mapPointers f)) := by
  induction ps with
  | nil => rfl
  | cons p ps ih => obtain ⟨name, v⟩ := p; rw [mapPointersProperties, ih, List.map_cons]; rfl

theorem mapPointers_id (V : Validator) : V.mapPointers id = V := by
  induction V with
  | union p branches ih =>
    have hall : branches.map (mapPointers id) = branches :=
      (List.map_congr_left ih).trans (List.map_id' branches)
    rw [mapPointers, mapPointersAll_eq_map, hall, id]
  | both p left right ihl ihr => rw [mapPointers, ihl, ihr, id]
  | list p items rules ih => rw [mapPointers, ih, id]
  | object p properties required closedness ih =>
    have hall : properties.map (Prod.map id (mapPointers id)) = properties.map id := by
      refine List.map_congr_left ?_
      rintro ⟨name, W⟩ hq
      exact congrArg (Prod.mk name) (ih _ hq)
    rw [List.map_id] at hall
    rw [mapPointers, mapPointersProperties_eq_map, hall, id]
  | _ => rfl

/-! ## Checks in other places -/

/-- An outcome with its issues under a path. -/
def moved (r : Path) (outcome : Value × List Issue) : Value × List Issue :=
  (outcome.1, outcome.2.map (Issue.under r))

section
variable {f : String → String} {r : Path} {g : Issue → Issue}

theorem reject_moved (hg : Issue.Moves f r g) (v : Value) (p : String) (path : Path) (finding : Finding) :
    reject v (f p) (r ++ path) finding = (reject v p path finding).map (Prod.map id (List.map g)) := by
  simp [reject, Except.map, hg p]

theorem report_moved (hg : Issue.Moves f r g) (v : Value) (p : String) (path : Path) (fs : List Finding) :
    report v (f p) (r ++ path) fs = (report v p path fs).map (Prod.map id (List.map g)) := by
  simp [report, Except.map, hg p]

theorem checkBranches_moved {branches : List Validator} {v : Value} {path : Path}
    (h : ∀ b ∈ branches, (b.mapPointers f).check v (r ++ path) =
      (b.check v path).map (Prod.map id (List.map g))) :
    checkBranches (branches.map (mapPointers f)) v (r ++ path) =
      (checkBranches branches v path).map (Sum.map id (List.map g)) := by
  induction branches with
  | nil => rfl
  | cons b bs ih =>
    rw [List.map_cons, checkBranches, checkBranches]
    refine bind_eq_map_bind (h b List.mem_cons_self) ?_
    rintro ⟨o, _ | ⟨i, is⟩⟩
    · rfl
    · refine bind_eq_map_bind (ih fun b hb => h b (List.mem_cons_of_mem _ hb)) ?_
      rintro (o | causes) <;> simp [Except.map, pure, Except.pure]

theorem checkProperties_moved (hg : Issue.Moves f r g) {p : String} {required : List Value}
    {fields : Fields} {path : Path} {properties : List (String × Validator)}
    (h : ∀ q ∈ properties, ∀ v path, (q.2.mapPointers f).check v (r ++ path) =
      (q.2.check v path).map (Prod.map id (List.map g))) :
    checkProperties (f p) required (properties.map (Prod.map id (mapPointers f))) fields (r ++ path) =
      (checkProperties p required properties fields path).map (Prod.map id (List.map g)) := by
  induction properties with
  | nil => rfl
  | cons q qs ih =>
    obtain ⟨name, V⟩ := q
    have hqs := ih fun q hq => h q (List.mem_cons_of_mem _ hq)
    rw [List.map_cons, Prod.map, checkProperties, checkProperties, id]
    cases fields.named? name with
    | none =>
      refine bind_eq_map_bind hqs ?_
      rintro ⟨out, is⟩
      by_cases hr : .text name ∈ required <;> simp [hr, hg p, Except.map, pure, Except.pure]
    | some v =>
      have hV := h (name, V) List.mem_cons_self v (path ++ [.key name])
      rw [← List.append_assoc] at hV
      refine bind_eq_map_bind hV ?_
      rintro ⟨o, own⟩
      refine bind_eq_map_bind hqs ?_
      rintro ⟨out, is⟩
      simp [Except.map, pure, Except.pure]

theorem checkElements_moved {items : Validator} {path : Path} (es : List (Value × Nat))
    (h : ∀ v path, (items.mapPointers f).check v (r ++ path) =
      (items.check v path).map (Prod.map id (List.map g))) :
    es.mapM (fun e => (items.mapPointers f).check e.1 (r ++ path ++ [.index e.2])) =
      (es.mapM fun e => items.check e.1 (path ++ [.index e.2])).map
        (List.map (Prod.map id (List.map g))) := by
  rw [← mapM_map_outcome]
  refine congrArg (fun check => es.mapM check) (funext fun e => ?_)
  rw [List.append_assoc, h]

/-- **Checks do not depend on where they are made**: the path and the pointers of a
    tree are only written into the issues. -/
theorem check_moved (hg : Issue.Moves f r g) (V : Validator) (v : Value) (path : Path) :
    (V.mapPointers f).check v (r ++ path) = (V.check v path).map (Prod.map id (List.map g)) := by
  induction V generalizing v path with
  | any p => rfl
  | never p => exact reject_moved hg ..
  | literal p expected =>
    rw [mapPointers, check, check]
    split
    · rfl
    · exact reject_moved hg ..
  | options p choices =>
    rw [mapPointers, check, check]
    split
    · split
      · rfl
      · exact reject_moved hg ..
    · exact reject_moved hg ..
  | union p branches ih =>
    rw [mapPointers, mapPointersAll_eq_map, check, check, List.length_map]
    refine bind_eq_map_bind (checkBranches_moved fun b hb => ih b hb v path) ?_
    rintro (o | causes)
    · rfl
    · simp [hg p, Except.map, pure, Except.pure]
  | both p left right ihl ihr =>
    rw [mapPointers, check_both, check_both]
    refine bind_eq_map_bind (ihl v path) ?_
    rintro ⟨lo, li⟩
    refine bind_eq_map_bind (ihr v path) ?_
    rintro ⟨ro, ri⟩
    cases li <;> cases ri <;> simp [Except.map, pure, Except.pure]
  | kind p expected =>
    rw [mapPointers, check, check]
    split
    · rfl
    · exact reject_moved hg ..
  | text p rules =>
    rw [mapPointers, check, check]
    split
    · exact reject_moved hg ..
    · exact bind_eq_map_bind (g := id) (by cases rules.findings _ <;> rfl) fun fs => report_moved hg ..
  | number p rules =>
    rw [mapPointers, check, check]
    refine bind_eq_map_bind (g := id) (by cases isFiniteNumber v <;> rfl) fun finite => ?_
    dsimp only [id]
    split
    · exact report_moved hg ..
    · exact reject_moved hg ..
  | list p items rules ih =>
    rw [mapPointers, check, check]
    split
    · exact reject_moved hg ..
    next elements _ =>
      refine bind_eq_map_bind (checkElements_moved _ ih) fun checked => ?_
      refine bind_eq_map_bind (g := id) (by cases rules.findings _ <;> rfl) fun own => ?_
      simp [hg p, Except.map, pure, Except.pure, Function.comp_def, List.flatMap_map, List.map_flatMap]
  | object p properties required closedness ih =>
    cases v with
    | object fields =>
      rw [mapPointers, mapPointersProperties_eq_map, check, check]
      refine bind_eq_map_bind (checkProperties_moved hg fun q hq v path => ih q hq v path) ?_
      rintro ⟨out, is⟩
      have hextra : undeclared (properties.map (Prod.map id (mapPointers f))) fields =
          undeclared properties fields := by
        simp only [undeclared, List.any_map]; rfl
      rw [hextra]
      cases closedness with
      | strict => by_cases he : (undeclared properties fields).isEmpty <;>
          simp [he, hg p, Except.map, pure, Except.pure]
      | _ => rfl
    | _ => exact reject_moved hg ..

end

/-- **Checks do not depend on where a value is**: the path only leads to it. -/
theorem check_append (V : Validator) (v : Value) (r path : Path) :
    V.check v (r ++ path) = (V.check v path).map (moved r) := by
  have h := check_moved (Issue.moves_under r) V v path
  rw [mapPointers_id] at h
  exact h

/-- **Checks do not depend on where a schema is**: its pointers only name it. -/
theorem check_mapPointers (f : String → String) (V : Validator) (v : Value) (path : Path) :
    (V.mapPointers f).check v path = (V.check v path).map (Prod.map id (List.map (Issue.mapPointers f))) :=
  check_moved (Issue.moves_mapPointers f) V v path

end Validator

end SchemaGuard
