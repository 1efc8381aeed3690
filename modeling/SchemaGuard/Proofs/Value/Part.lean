/-
  SchemaGuard — values with some of their fields taken out.

  `w ≤ v` says that `w` is `v` without some fields, at any depth: scalars are the
  same, lists have one length and are compared element by element, and the fields
  of an object, in any order, are parts of fields that the other object has.

  * On JSON data `≤` is reflexive (`le_refl`) and transitive (`le_trans`);
  * `Alike`: each is a part of the other, that is, they are equal up to the order
    of fields.
-/
import SchemaGuard.Proofs.Value.Json

namespace SchemaGuard

namespace Value

mutual
/-- Whether a value is another one without some fields, at any depth. -/
def isPart : Value → Value → Bool
  | .scalar a, .scalar b => a == b
  | .list xs, .list ys => areParts xs ys
  | .tuple xs, .tuple ys => areParts xs ys
  | .object fs, .object gs => haveParts fs gs
  | _, _ => false
/-- Whether items are parts of the items at the same places. -/
def areParts : List Value → List Value → Bool
  | [], [] => true
  | x :: xs, y :: ys => x.isPart y && areParts xs ys
  | _, _ => false
/-- Whether all fields are parts of fields of an object. -/
def haveParts : List (Scalar × Value) → Fields → Bool
  | [], _ => true
  | (k, x) :: fs, gs =>
    (match List.lookup k gs with
      | some y => x.isPart y
      | none => false) && haveParts fs gs
end

instance : LE Value := ⟨fun w v => w.isPart v⟩

instance : DecidableLE Value := fun w v => inferInstanceAs (Decidable (w.isPart v = true))

theorem le_def {w v : Value} : w ≤ v ↔ w.isPart v := Iff.rfl

theorem areParts_iff : ∀ {xs ys : List Value}, areParts xs ys ↔ List.Forall₂ (· ≤ ·) xs ys
  | [], [] => by simp [areParts]
  | [], _ :: _ => by simp [areParts]
  | _ :: _, [] => by simp [areParts]
  | x :: xs, y :: ys => by simp [areParts, @areParts_iff xs ys, le_def]

theorem haveParts_iff {gs : Fields} : ∀ {fs : Fields},
    haveParts fs gs ↔ ∀ f ∈ fs, ∃ y, List.lookup f.1 gs = some y ∧ f.2 ≤ y
  | [] => by simp [haveParts]
  | (k, x) :: fs => by
    simp only [haveParts, Bool.and_eq_true, @haveParts_iff gs fs, List.forall_mem_cons]
    refine and_congr_left fun _ => ?_
    cases List.lookup k gs <;> simp [le_def]

/-! ## Shapes -/

/-- A value is a part of values of its kind only. -/
theorem le_iff {w v : Value} : w ≤ v ↔
    match w, v with
    | .scalar a, .scalar b => a = b
    | .list xs, .list ys | .tuple xs, .tuple ys => List.Forall₂ (· ≤ ·) xs ys
    | .object fs, .object gs => ∀ f ∈ fs, ∃ y, List.lookup f.1 gs = some y ∧ f.2 ≤ y
    | _, _ => False := by
  cases w <;> cases v <;> simp [le_def, isPart, areParts_iff, haveParts_iff]

@[simp] theorem scalar_le_iff {s : Scalar} {v : Value} : .scalar s ≤ v ↔ v = .scalar s := by
  rw [le_iff]
  cases v <;> simp [eq_comm]

@[simp] theorem le_scalar_iff {s : Scalar} {w : Value} : w ≤ .scalar s ↔ w = .scalar s := by
  rw [le_iff]
  cases w <;> simp

theorem list_le_iff {xs : List Value} {v : Value} :
    .list xs ≤ v ↔ ∃ ys, v = .list ys ∧ List.Forall₂ (· ≤ ·) xs ys := by
  rw [le_iff]
  cases v <;> simp

theorem le_list_iff {ys : List Value} {w : Value} :
    w ≤ .list ys ↔ ∃ xs, w = .list xs ∧ List.Forall₂ (· ≤ ·) xs ys := by
  rw [le_iff]
  cases w <;> simp

@[simp] theorem list_le_list {xs ys : List Value} :
    Value.list xs ≤ .list ys ↔ List.Forall₂ (· ≤ ·) xs ys := le_iff

theorem tuple_le_iff {xs : List Value} {v : Value} :
    .tuple xs ≤ v ↔ ∃ ys, v = .tuple ys ∧ List.Forall₂ (· ≤ ·) xs ys := by
  rw [le_iff]
  cases v <;> simp

theorem object_le_iff {fs : Fields} {v : Value} :
    .object fs ≤ v ↔
      ∃ gs, v = .object gs ∧ ∀ f ∈ fs, ∃ y, List.lookup f.1 gs = some y ∧ f.2 ≤ y := by
  rw [le_iff]
  cases v <;> simp

theorem le_object_iff {gs : Fields} {w : Value} :
    w ≤ .object gs ↔
      ∃ fs, w = .object fs ∧ ∀ f ∈ fs, ∃ y, List.lookup f.1 gs = some y ∧ f.2 ≤ y := by
  rw [le_iff]
  cases w <;> simp

theorem object_le_object {fs gs : Fields} :
    Value.object fs ≤ .object gs ↔ ∀ f ∈ fs, ∃ y, List.lookup f.1 gs = some y ∧ f.2 ≤ y := le_iff

/-! ## Order -/

theorem le_refl {v : Value} (h : v.IsJson) : v ≤ v := by
  induction v with
  | scalar s => simp
  | list items ih =>
    rw [isJson_list] at h
    exact list_le_list.2 (List.forall₂_same.2 fun x hx => ih x hx (h x hx))
  | tuple items => exact absurd h not_isJson_tuple
  | object fields ih =>
    rw [isJson_object] at h
    exact object_le_object.2 fun f hf =>
      ⟨f.2, (Fields.lookup_eq_some_iff h.1).2 hf, ih f hf (h.2.2 f hf)⟩

theorem forall₂_le_trans {xs ys zs : List Value}
    (h : ∀ x ∈ xs, ∀ y z : Value, x ≤ y → y ≤ z → x ≤ z)
    (hxy : List.Forall₂ (· ≤ ·) xs ys) (hyz : List.Forall₂ (· ≤ ·) ys zs) :
    List.Forall₂ (· ≤ ·) xs zs := by
  induction hxy generalizing zs with
  | nil => exact hyz
  | cons hx _ ih =>
    cases hyz with
    | cons hy hyz =>
      exact .cons (h _ (by simp) _ _ hx hy) (ih (fun x hx => h x (by simp [hx])) hyz)

theorem le_trans {u v w : Value} (huv : u ≤ v) (hvw : v ≤ w) : u ≤ w := by
  induction u generalizing v w with
  | scalar s => rw [scalar_le_iff] at huv; subst huv; exact hvw
  | list items ih =>
    obtain ⟨ys, rfl, hxy⟩ := list_le_iff.1 huv
    obtain ⟨zs, rfl, hyz⟩ := list_le_iff.1 hvw
    exact list_le_list.2 (forall₂_le_trans (fun x hx _ _ h₁ h₂ => ih x hx h₁ h₂) hxy hyz)
  | tuple items ih =>
    obtain ⟨ys, rfl, hxy⟩ := tuple_le_iff.1 huv
    obtain ⟨zs, rfl, hyz⟩ := tuple_le_iff.1 hvw
    exact tuple_le_iff.2
      ⟨zs, rfl, forall₂_le_trans (fun x hx _ _ h₁ h₂ => ih x hx h₁ h₂) hxy hyz⟩
  | object fields ih =>
    obtain ⟨gs, rfl, hfg⟩ := object_le_iff.1 huv
    obtain ⟨hs, rfl, hgh⟩ := object_le_iff.1 hvw
    refine object_le_object.2 fun f hf => ?_
    obtain ⟨y, hy, hxy⟩ := hfg f hf
    obtain ⟨z, hz, hyz⟩ := hgh _ (Fields.mem_of_lookup hy)
    exact ⟨z, hz, ih f hf hxy hyz⟩

theorem kind_eq_of_le {w v : Value} (h : w ≤ v) : w.kind = v.kind := by
  cases v with
  | scalar s => rw [le_scalar_iff.1 h]
  | list ys => obtain ⟨xs, rfl, -⟩ := le_list_iff.1 h; rfl
  | tuple ys => cases w <;> simp [le_def, isPart] at h; rfl
  | object gs => obtain ⟨fs, rfl, -⟩ := le_object_iff.1 h; rfl

theorem InRange.of_le {v w : Value} (hv : v.InRange) (h : w ≤ v) : w.InRange := by
  induction w generalizing v with
  | scalar s => rw [scalar_le_iff] at h; subst h; exact hv
  | list items ih =>
    obtain ⟨ys, rfl, hle⟩ := list_le_iff.1 h
    refine inRange_list.2 fun x hx => ?_
    obtain ⟨i, hi, rfl⟩ := List.getElem_of_mem hx
    exact ih _ hx (inRange_list.1 hv _ (List.getElem_mem _)) (hle.get hi (hle.length_eq ▸ hi))
  | tuple items ih =>
    obtain ⟨ys, rfl, hle⟩ := tuple_le_iff.1 h
    refine inRange_tuple.2 fun x hx => ?_
    obtain ⟨i, hi, rfl⟩ := List.getElem_of_mem hx
    exact ih _ hx (inRange_tuple.1 hv _ (List.getElem_mem _)) (hle.get hi (hle.length_eq ▸ hi))
  | object fields ih =>
    obtain ⟨gs, rfl, hle⟩ := object_le_iff.1 h
    refine inRange_object.2 fun f hf => ?_
    obtain ⟨y, hy, hfy⟩ := hle f hf
    exact ih f hf (inRange_object.1 hv _ (Fields.mem_of_lookup hy)) hfy

/-! ## Equality up to the order of fields -/

/-- Equal up to the order of fields. -/
def Alike (v w : Value) : Prop := v ≤ w ∧ w ≤ v

instance (v w : Value) : Decidable (v.Alike w) := inferInstanceAs (Decidable (_ ∧ _))

theorem Alike.refl {v : Value} (h : v.IsJson) : v.Alike v := ⟨le_refl h, le_refl h⟩

theorem Alike.symm {v w : Value} (h : v.Alike w) : w.Alike v := ⟨h.2, h.1⟩

theorem Alike.trans {u v w : Value} (huv : u.Alike v) (hvw : v.Alike w) : u.Alike w :=
  ⟨le_trans huv.1 hvw.1, le_trans hvw.2 huv.2⟩

theorem alike_scalar_iff {s : Scalar} {v : Value} : (scalar s).Alike v ↔ v = .scalar s := by
  simp [Alike]

theorem alike_list_iff {xs : List Value} {v : Value} :
    (list xs).Alike v ↔ ∃ ys, v = .list ys ∧ List.Forall₂ Alike xs ys := by
  constructor
  · rintro ⟨h₁, h₂⟩
    obtain ⟨ys, rfl, hxy⟩ := list_le_iff.1 h₁
    rw [list_le_list] at h₂
    refine ⟨ys, rfl, List.forall₂_iff_get.2 ⟨hxy.length_eq, fun i hx hy => ?_⟩⟩
    exact ⟨hxy.get hx hy, h₂.get hy hx⟩
  · rintro ⟨ys, rfl, hxy⟩
    exact ⟨list_le_list.2 (hxy.imp fun _ _ h => h.1),
      list_le_list.2 ((hxy.imp fun _ _ h => h.2).flip)⟩

theorem Alike.lookup {fs gs : Fields} (h : (object fs).Alike (.object gs)) (k : Scalar) :
    Option.Rel Alike (List.lookup k fs) (List.lookup k gs) := by
  obtain ⟨h₁, h₂⟩ := h
  rw [object_le_object] at h₁ h₂
  cases hx : List.lookup k fs with
  | none =>
    cases hy : List.lookup k gs with
    | none => exact .none
    | some y =>
      obtain ⟨x, hx', -⟩ := h₂ _ (Fields.mem_of_lookup hy)
      rw [hx] at hx'; cases hx'
  | some x =>
    obtain ⟨y, hy, hxy⟩ := h₁ _ (Fields.mem_of_lookup hx)
    obtain ⟨x', hx', hyx⟩ := h₂ _ (Fields.mem_of_lookup hy)
    obtain rfl : x = x' := Option.some.inj (hx.symm.trans hx')
    rw [hy]; exact .some ⟨hxy, hyx⟩

theorem Alike.keys_perm {fs gs : Fields} (h : (object fs).Alike (.object gs)) (hf : fs.keys.Nodup)
    (hg : gs.keys.Nodup) : fs.keys.Perm gs.keys := by
  refine (List.perm_ext_iff_of_nodup hf hg).2 fun k => ?_
  have hk := h.lookup k
  rw [← Fields.lookup_isSome_iff, ← Fields.lookup_isSome_iff]
  generalize List.lookup k fs = x, List.lookup k gs = y at hk
  cases hk <;> rfl

end Value

end SchemaGuard
