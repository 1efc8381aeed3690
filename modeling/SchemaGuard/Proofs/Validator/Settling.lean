/-
  SchemaGuard — checks that end without a fault, node by node.

  For each kind of node with trees below it a `settles_…_iff` says when a check of
  the node ends in acceptance or rejection: a union is done with its branches at
  the first one that accepts, all other nodes check every tree below them.
-/
import SchemaGuard.Proofs.Validator.Acceptance

namespace SchemaGuard

namespace Validator

/-! ## Unions and intersections -/

section
variable {p : String} {b : Validator} {bs : List Validator} {v : Value}

theorem accepts_union_cons_iff {o : Value} : (union p (b :: bs)).Accepts v o ↔
    b.Accepts v o ∨ b.Rejects v ∧ (union p bs).Accepts v o := by
  simp only [accepts_union_iff]
  constructor
  · rintro ⟨_ | ⟨c, before⟩, d, after, heq, hbefore, hd⟩
    · obtain ⟨rfl, rfl⟩ := List.cons.inj heq
      exact Or.inl hd
    · obtain ⟨rfl, rfl⟩ := List.cons.inj heq
      obtain ⟨hc, hbefore⟩ := List.forall_mem_cons.1 hbefore
      exact Or.inr ⟨hc, before, d, after, rfl, hbefore, hd⟩
  · rintro (hb | ⟨hb, before, d, after, rfl, hbefore, hd⟩)
    · exact ⟨[], b, bs, rfl, nofun, hb⟩
    · exact ⟨b :: before, d, after, rfl, List.forall_mem_cons.2 ⟨hb, hbefore⟩, hd⟩

theorem settles_union_iff : (union p bs).Settles v ↔ ∃ r, checkBranches bs v [] = .ok r := by
  rw [Settles, check]
  simp only [bind_eq_ok_iff]
  constructor
  · rintro ⟨_, r, hr, -⟩; exact ⟨r, hr⟩
  · rintro ⟨r, hr⟩
    cases r <;> exact ⟨_, _, hr, rfl⟩

theorem settles_union_nil : (union p []).Settles v := settles_union_iff.2 ⟨_, rfl⟩

theorem settles_union_cons_iff : (union p (b :: bs)).Settles v ↔
    (∃ o, b.Accepts v o) ∨ b.Rejects v ∧ (union p bs).Settles v := by
  simp only [settles_union_iff, checkBranches, bind_eq_ok_iff]
  constructor
  · rintro ⟨r, ⟨o, _ | ⟨i, is⟩⟩, hb, h⟩
    · exact Or.inl ⟨o, hb⟩
    · obtain ⟨r', hr', -⟩ := bind_eq_ok_iff.1 h
      exact Or.inr ⟨⟨o, i, is, hb⟩, r', hr'⟩
  · rintro (⟨o, hb⟩ | ⟨⟨o, i, is, hb⟩, r, hr⟩)
    · exact ⟨.inl o, _, hb, rfl⟩
    · cases r with
      | inl o' => exact ⟨.inl o', _, hb, bind_eq_ok_iff.2 ⟨_, hr, rfl⟩⟩
      | inr cs => exact ⟨.inr (i :: is ++ cs), _, hb, bind_eq_ok_iff.2 ⟨_, hr, rfl⟩⟩

theorem settles_both_iff {left right : Validator} :
    (both p left right).Settles v ↔ left.Settles v ∧ right.Settles v := by
  rw [Settles, check_both]
  simp only [bind_eq_ok_iff]
  constructor
  · rintro ⟨_, l, hl, r, hr, -⟩; exact ⟨⟨l, hl⟩, r, hr⟩
  · rintro ⟨⟨⟨lo, li⟩, hl⟩, ⟨ro, ri⟩, hr⟩
    by_cases h : (li ++ ri).isEmpty
    · exact ⟨_, _, hl, _, hr, if_pos h⟩
    · exact ⟨_, _, hl, _, hr, if_neg h⟩

end

/-! ## Lists and objects -/

theorem settles_list_iff {p : String} {items : Validator} {rules : ListRules} {v : Value} :
    (list p items rules).Settles v ↔ ∀ xs, v.elements? = some xs →
      (∀ x ∈ xs, items.Settles x) ∧ ∃ fs, rules.findings xs.length = .ok fs := by
  rw [Settles, check]
  cases hv : v.elements? with
  | none => exact iff_of_true ⟨_, rfl⟩ fun xs heq => by cases heq
  | some xs =>
    simp only [bind_eq_ok_iff, mapM_eq_ok_iff, Option.some.injEq, forall_eq']
    constructor
    · rintro ⟨_, checked, hc, own, hown, -⟩
      refine ⟨fun x hx => ?_, own, hown⟩
      obtain ⟨i, hi⟩ := List.mem_iff_getElem?.1 hx
      obtain ⟨outcome, -, ho⟩ := forall₂_left hc (List.mk_mem_zipIdx_iff_getElem?.2 hi)
      exact (settles_iff_check _).2 ⟨outcome, ho⟩
    · rintro ⟨hxs, own, hown⟩
      obtain ⟨checked, hc⟩ : ∃ checked, List.Forall₂
          (fun e r => items.check e.1 ([] ++ [.index e.2]) = .ok r) xs.zipIdx checked :=
        exists_forall₂ fun e he =>
          (settles_iff_check _).1 (hxs e.1 (List.fst_mem_of_mem_zipIdx he))
      exact ⟨_, checked, hc, own, hown, rfl⟩

theorem exists_checkProperties_iff {p : String} {required : List Value} {fields : Fields} {path : Path}
    {properties : List (String × Validator)} :
    (∃ r, checkProperties p required properties fields path = .ok r) ↔
      ∀ q ∈ properties, ∀ x, fields.named? q.1 = some x → q.2.Settles x := by
  induction properties with
  | nil => exact iff_of_true ⟨_, rfl⟩ fun q hq => by cases hq
  | cons q qs ih =>
    obtain ⟨name, V⟩ := q
    rw [List.forall_mem_cons, ← ih, checkProperties]
    cases hx : fields.named? name with
    | none =>
      simp only [bind_eq_ok_iff]
      constructor
      · rintro ⟨_, r, hr, -⟩; exact ⟨fun x heq => (by cases heq), r, hr⟩
      · rintro ⟨-, r, hr⟩; exact ⟨_, r, hr, rfl⟩
    | some x =>
      simp only [bind_eq_ok_iff, Option.some.injEq, forall_eq', settles_iff_check (path ++ [.key name])]
      constructor
      · rintro ⟨_, o, ho, r, hr, -⟩; exact ⟨⟨o, ho⟩, r, hr⟩
      · rintro ⟨⟨o, ho⟩, r, hr⟩; exact ⟨_, o, ho, r, hr, rfl⟩

theorem settles_object_iff {p : String} {properties : List (String × Validator)}
    {required : List Value} {closedness : Closedness} {v : Value} :
    (object p properties required closedness).Settles v ↔ ∀ fields : Fields, v = .object fields →
      ∀ q ∈ properties, ∀ x, fields.named? q.1 = some x → q.2.Settles x := by
  rw [Settles, check.eq_def]
  cases v with
  | object fields =>
    simp only [bind_eq_ok_iff, Value.object.injEq, forall_eq']
    rw [← @exists_checkProperties_iff p required fields []]
    constructor
    · rintro ⟨_, r, hr, -⟩; exact ⟨r, hr⟩
    · rintro ⟨⟨out, is⟩, hr⟩
      by_cases h : (undeclared properties fields).isEmpty <;> cases closedness <;>
        exact ⟨_, _, hr, by simp only [h]; rfl⟩
  | _ => exact iff_of_true ⟨_, rfl⟩ fun fields heq => by cases heq

end Validator

end SchemaGuard
