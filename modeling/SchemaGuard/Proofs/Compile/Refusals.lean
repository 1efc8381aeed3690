/-
  SchemaGuard — what the refusals of compiling show.

  The message of a refusal shows a type, or the source of a pattern (`SchemaProblem.shown`). Both
  are parts of the schema, so they can be shown if its integers can (`showable_of_refused`).
-/
import Mathlib
import SchemaGuard.Proofs.Compile.Faults
import SchemaGuard.Proofs.Compile.Origins

namespace SchemaGuard

/-- The data in the wording of a problem. -/
def SchemaProblem.shown : SchemaProblem → List Value
  | unsupportedType type => [type]
  | invalidPattern source _ => [source]
  | _ => []

/-! ## Visited nodes -/

section
variable {fields : Fields} {p : String}

/-- The copy of a node under one of its types can be shown. -/
theorem Value.Showable.set_type (h : Value.Showable (.object fields)) {type t : Value}
    (htype : fields.named? "type" = some type) (ht : t.Showable) :
    Value.Showable (.object (fields.set "type" t)) := by
  obtain ⟨hkeys, hparts⟩ := Value.showable_object.1 h
  refine Value.showable_object.2 ⟨?_, fun f hf => ?_⟩
  · rwa [Fields.keys_set htype t]
  · rcases Fields.mem_set hf with hf | rfl
    · exact hparts f hf
    · exact ht

theorem Value.Showable.enteredUnder (h : Value.Showable (.object fields)) {type : Value}
    (htype : fields.named? "type" = some type) : ∀ v ∈ fields.enteredUnder type p, v.2.Showable := by
  unfold Fields.enteredUnder
  rintro ⟨q, n⟩ hv
  split at hv
  next =>
    obtain ⟨t, ht, rfl⟩ := List.mem_map.1 (mem_of_mem_listedAt hv)
    exact h.set_type htype (Value.showable_list.1 (h.named? htype) t ht)
  next =>
    obtain ⟨m, hm, heq⟩ := List.mem_map.1 hv
    cases heq
    exact h.given? "items" n hm
  next =>
    obtain ⟨f, hf, rfl⟩ := exists_of_mem_propertiesAt hv
    rw [Fields.propertyFields] at hf
    cases hdeclared : fields.declared? with
    | none => rw [hdeclared] at hf; cases hf
    | some declared => rw [hdeclared] at hf; exact h.declared hdeclared f hf
  next => cases hv

theorem Value.Showable.entered {n : Value} (h : n.Showable) : ∀ v ∈ n.entered p, v.2.Showable := by
  rintro ⟨q, m⟩ hm
  unfold Value.entered at hm
  split at hm
  next fields =>
    have hread := h.of_reading
    have hfrom := Fields.reading_isFrom fields
    split at hm
    next type hr => rw [hr] at hfrom; exact h.enteredUnder hfrom _ hm
    next =>
      unfold Reading.entered at hm
      split at hm
      next hr => rw [hr] at hread; exact hread m (mem_of_mem_listedAt hm)
      next hr => rw [hr] at hread; exact hread m (mem_of_mem_listedAt hm)
      next => cases hm
  next => cases hm

/-- All nodes visited in a document that can be shown can be shown. -/
theorem Value.Showable.visits {n : Value} (h : n.Showable) : ∀ v ∈ visits n p, v.2.Showable := by
  intro v hv
  induction hs : sizeOf n using Nat.strong_induction_on generalizing n p with
  | _ size ih =>
    rcases mem_visits_iff.1 hv with rfl | ⟨w, hw, hvw⟩
    · exact h
    · exact ih _ (hs ▸ Value.sizeOf_entered hw) (h.entered w hw) hvw rfl

end

/-! ## Refusals -/

section
variable [CharacterNames] {fields : Fields} {n : Value} {e : SchemaError} {p : String}

theorem showable_of_typeError {type : Value} (ht : type.Showable) (he : fields.typeError type p = some e) :
    ∀ x ∈ e.problem.shown, x.Showable := by
  unfold Fields.typeError at he
  split at he
  next => cases he; exact List.forall_mem_nil _
  next => cases he
  next =>
    -- only texts are read as patterns, and refused
    obtain ⟨problem, hproblem, rfl⟩ := Option.map_eq_some_iff.1 he
    unfold Value.patternProblem? at hproblem
    split at hproblem
    next s =>
      split at hproblem <;> cases hproblem
      exact List.forall_mem_singleton.2 (Value.forall_parts_scalar.2 rfl)
    next => cases hproblem
  next => split at he <;> cases he; exact List.forall_mem_nil _
  next => split at he <;> cases he; exact List.forall_mem_singleton.2 ht

theorem showable_of_ownError (h : n.Showable) (he : n.ownError p = some e) :
    ∀ x ∈ e.problem.shown, x.Showable := by
  unfold Value.ownError at he
  split at he
  next => cases he
  next fields =>
    have hfrom := Fields.reading_isFrom fields
    split at he
    next type hr =>
      rw [hr] at hfrom
      exact showable_of_typeError (h.named? hfrom) he
    next => unfold Reading.error at he; split at he <;> cases he <;> exact List.forall_mem_nil _
  next => cases he; exact List.forall_mem_nil _

omit [CharacterNames] in
theorem shown_of_unlisted (he : n.unlisted p = some e) : e.problem.shown = [] := by
  unfold Value.unlisted at he
  split at he
  next => unfold Reading.unlisted at he; split at he <;> cases he <;> rfl
  next => cases he

theorem showable_of_compilePattern {source : Value} (hsource : source.Showable)
    (h : (Encounter.pattern source p).failure = some (.refused e)) : ∀ x ∈ e.problem.shown, x.Showable := by
  rw [Encounter.failure] at h
  split at h
  next => cases h
  next hcompiled =>
    cases h
    rw [compilePattern] at hcompiled
    split at hcompiled
    next => cases hcompiled
    next =>
      split at hcompiled
      next => cases hcompiled
      next =>
        split at hcompiled <;> cases hcompiled
        exact List.forall_mem_singleton.2 hsource

/-- The message of a refusal shows parts of the schema only. -/
theorem showable_of_refused {s : Value} (hs : s.Showable) {mode : Closedness}
    (h : compile s mode p = .error (.refused e)) : ∀ x ∈ e.problem.shown, x.Showable := by
  obtain ⟨encounter, hencounter, hf⟩ := compile_eq_error_iff.1 h
  rcases exists_looksAt_of_mem_encounters hencounter.mem with ⟨v, hv, rfl⟩ | ⟨fields, hfields, hlook⟩
  · obtain ⟨e', he', heq⟩ := Option.map_eq_some_iff.1 hf
    cases heq
    rcases Option.or_eq_some_iff.1 he' with hown | ⟨-, hunlisted⟩
    · exact showable_of_ownError (hs.visits v hv) hown
    · rw [shown_of_unlisted hunlisted]; exact List.forall_mem_nil _
  · have hfields : Value.Showable (.object fields) := hs.part hfields.mem_parts
    cases hlook with
    | pattern => exact showable_of_compilePattern (hfields.named "pattern") hf
    | properties => rw [failure_properties] at hf; split at hf <;> cases hf
    | name => cases hf
    | required => rw [Encounter.failure] at hf; split at hf <;> cases hf

end

end SchemaGuard
