/-
  SchemaGuard — which schemas cannot be prepared without a fault.

  * `e.Untyped f`: something that compiling comes upon has a value of another type than compiling
    needs, and fails with `f`;
  * `SchemaUnfit s f`: the schema `s` has a `$schema` that identifies no dialect, or compiling it
    comes to a pattern or, in draft 3, to such a value.

  Main result: `prepare_eq_fault_iff`. Preparing a schema ends with a fault exactly if the schema
  is unfit so.
-/
import Mathlib
import SchemaGuard.Proofs.Compile.Origins
import SchemaGuard.Proofs.Pattern.Faults
import SchemaGuard.Proofs.Tool.Preparation

namespace SchemaGuard

open Validator

/-- A keyword has a value of another type than all dialects but draft 3 demand, with which
    compiling cannot go on. -/
inductive Encounter.Untyped [CharacterNames] : Encounter → Fault → Prop where
  /-- the pattern is no sequence of texts -/
  | unjoined {v : Value} {q : String} {f : Fault} : v.isVacant = false → Pattern.anchored v = .error f →
      Untyped (.pattern v q) f
  /-- the pattern is a sequence of texts that cannot be read when put together -/
  | joined {v : Value} {q : String} {text : List Char} {f : Fault} : (∀ s, v ≠ .text s) →
      v.isVacant = false → Pattern.anchored v = .ok text → Pattern.ofText text = .error (.fault f) →
      Pattern.Provokes text f → Untyped (.pattern v q) f
  | properties {v : Value} : v.isVacant = false → (∀ fields, v ≠ .object fields) →
      Untyped (.properties v) .propertiesNotObject
  | required {v : Value} {f : Fault} : nameSet v = .error f → Untyped (.required v) f

/-- Preparing a schema ends with a fault: its `$schema` identifies no dialect; or its meta-schema
    admits the schema, and compiling it comes to a pattern that provokes the fault when it is
    read or, in a schema of draft 3 only, to a keyword whose value is of another type than
    compiling needs. -/
inductive SchemaUnfit [CharacterNames] (s : Value) (f : Fault) : Prop where
  | dialect {fields : Fields} {v : Value} : s = .object fields → fields.named? "$schema" = some v →
      Draft.ofIdentifier v = .error f → SchemaUnfit s f
  | pattern {text q : String} : checkSchema s "#" = .ok (.ok ()) → s.ComesTo "#" (.pattern (.text text) q) →
      Pattern.ofText (Pattern.anchorEnd text.toList) = .error (.fault f) →
      Pattern.Provokes text.toList f → SchemaUnfit s f
  | untyped {e : Encounter} : checkSchema s "#" = .ok (.ok ()) → Draft.ofDocument s = .ok .three →
      s.ComesTo "#" e → e.Untyped f → SchemaUnfit s f

section
variable [CharacterNames] {s : Value} {f : Fault}

omit [CharacterNames] in
theorem ofDocument_eq_error_iff : Draft.ofDocument s = .error f ↔ ∃ (fields : Fields) (v : Value),
    s = .object fields ∧ fields.named? "$schema" = some v ∧ Draft.ofIdentifier v = .error f := by
  constructor
  · intro h
    cases s with
    | object fields =>
      rw [Draft.ofDocument] at h
      split at h
      next v hv => exact ⟨fields, v, rfl, hv, h⟩
      next => cases h
    | _ => cases h
  · rintro ⟨fields, v, rfl, hv, h⟩
    rw [Draft.ofDocument, hv]
    exact h

theorem checkSchema_eq_error_iff {q : String} :
    checkSchema s q = .error f ↔ Draft.ofDocument s = .error f := by
  unfold checkSchema
  cases Draft.ofDocument s <;> simp [bind, Except.bind, pure, Except.pure]

theorem Encounter.Untyped.failure_eq {e : Encounter} (h : e.Untyped f) : e.failure = some (.fault f) := by
  cases h with
  | unjoined hfull hjoined => simp only [Encounter.failure, compilePattern, hfull, hjoined]; rfl
  | joined _ hfull hjoined hread _ => simp only [Encounter.failure, compilePattern, hfull, hjoined, hread]; rfl
  | @properties v hfull hne =>
    cases v with
    | object fields => exact absurd rfl (hne fields)
    | _ => simp only [Encounter.failure, hfull]; rfl
  | required hset => simp only [Encounter.failure, hset]

/-- What fails with a fault is a pattern that is a text, a keyword of another type than compiling
    needs, or a name. -/
theorem fault_cases {e : Encounter} (h : e.failure = some (.fault f)) :
    (∃ text q, e = .pattern (.text text) q ∧
      Pattern.ofText (Pattern.anchorEnd text.toList) = .error (.fault f)) ∨
    e.Untyped f ∨ ∃ key, e = .name key := by
  cases e with
  | node n q =>
    obtain ⟨_, -, heq⟩ := Option.map_eq_some_iff.1 h
    cases heq
  | name key => exact Or.inr (Or.inr ⟨key, rfl⟩)
  | pattern v q =>
    by_cases htext : ∃ s, v = .text s
    · obtain ⟨s, rfl⟩ := htext
      exact Or.inl ⟨s, q, rfl, failure_pattern_text_eq_fault_iff.1 h⟩
    refine Or.inr (Or.inl ?_)
    have hne : ∀ s, v ≠ .text s := fun s heq => htext ⟨s, heq⟩
    cases hfull : v.isVacant with
    | true => simp [Encounter.failure, compilePattern, hfull] at h
    | false =>
      simp only [Encounter.failure, compilePattern, hfull] at h
      cases hjoined : Pattern.anchored v with
      | error f' =>
        simp only [hjoined] at h
        cases h
        exact .unjoined hfull hjoined
      | ok text =>
        simp only [hjoined] at h
        rcases hread : Pattern.ofText text with (r | f') | pattern <;> rw [hread] at h <;> cases h
        exact .joined hne hfull hjoined hread (Pattern.provokes_of_ofText hread)
  | properties v =>
    refine Or.inr (Or.inl ?_)
    cases hfull : v.isVacant with
    | true => cases v <;> simp [Encounter.failure, hfull] at h
    | false =>
      cases v with
      | object fields => cases h
      | _ =>
        simp only [Encounter.failure, hfull] at h
        cases h
        exact .properties hfull fun fields heq => by cases heq
  | required v =>
    refine Or.inr (Or.inl ?_)
    simp only [Encounter.failure] at h
    split at h
    next => cases h
    next hset => cases h; exact .required hset

/-- Compiling JSON data comes to no name that is no text. -/
theorem ne_name_of_comesTo (hs : s.IsJson) {e : Encounter} (h : s.ComesTo "#" e) (key : Scalar) :
    e ≠ .name key := by
  rintro rfl
  rcases exists_looksAt_of_mem_encounters h.mem with ⟨v, -, heq⟩ | ⟨fields, hfields, hlook⟩
  · cases heq
  · cases hlook with
    | name hdeclared hfield hkey => exact hkey ((hfields.isJson hs).declared hdeclared _ hfield).1

theorem SchemaUnfit.of_comesTo (hs : s.IsJson) (hchecked : checkSchema s "#" = .ok (.ok ())) {e : Encounter}
    (he : s.ComesTo "#" e) (hf : e.failure = some (.fault f)) : SchemaUnfit s f := by
  rcases fault_cases hf with ⟨text, q, rfl, hread⟩ | huntyped | ⟨key, rfl⟩
  · exact .pattern hchecked he hread (Pattern.provokes_of_ofText hread).of_anchorEnd
  · refine .untyped hchecked ?_ he huntyped
    obtain ⟨draft, hof, hcheck⟩ := checkSchema_eq_ok_iff.1 hchecked
    by_contra hdialect
    have hdraft : draft ≠ .three := fun hthree => hdialect (hthree ▸ hof)
    obtain ⟨_, text, q, -, -, rfl, -⟩ :=
      exists_pattern_of_fault hs (Draft.admits_of_check hdraft hcheck) he.mem hf
    -- the pattern is a text, so it is of the type that dialects demand
    cases huntyped with
    | unjoined _ hjoined => cases hjoined
    | joined hne => exact hne text rfl
  · exact absurd rfl (ne_name_of_comesTo hs he key)

/-- Whether preparing a schema ends with a fault does not depend on the default and the pointers. -/
theorem prepare_eq_fault_iff (hs : s.IsJson) {mode : Closedness} {q p : String} :
    prepare s mode q p = .error (.fault f) ↔ SchemaUnfit s f := by
  have hplace : prepare s mode q p = .error (.fault f) ↔ prepare s .strip "#" "#" = .error (.fault f) :=
    ⟨fun h => (h ▸ prepare_endAlike s mode .strip q p "#" "#").eq_fault,
      fun h => (h ▸ prepare_endAlike s .strip mode "#" "#" q p).eq_fault⟩
  rw [hplace]
  have hcome : ∀ {e : Encounter}, checkSchema s "#" = .ok (.ok ()) → s.ComesTo "#" e →
      e.failure = some (.fault f) → prepare s .strip "#" "#" = .error (.fault f) := fun hchecked he hf => by
    simp only [prepare, hchecked, compile_eq_error_iff.2 ⟨_, he, hf⟩]
  constructor
  · intro h
    unfold prepare at h
    split at h
    next hchecked =>
      cases h
      rw [checkSchema_eq_error_iff, ofDocument_eq_error_iff] at hchecked
      obtain ⟨fields, v, hfields, hv, hid⟩ := hchecked
      exact .dialect hfields hv hid
    next => cases h
    next hchecked =>
      split at h
      next => cases h
      next => cases h
      next hcompiled =>
        cases h
        obtain ⟨e, he, hf⟩ := compile_eq_error_iff.1 hcompiled
        exact .of_comesTo hs hchecked he hf
  · intro h
    cases h with
    | dialect hfields hv hid =>
      have hdraft := ofDocument_eq_error_iff.2 ⟨_, _, hfields, hv, hid⟩
      simp only [prepare, checkSchema_eq_error_iff.2 hdraft]
    | pattern hchecked he hread _ => exact hcome hchecked he (failure_pattern_text_eq_fault_iff.2 hread)
    | untyped hchecked _ he huntyped => exact hcome hchecked he huntyped.failure_eq

end

end SchemaGuard
