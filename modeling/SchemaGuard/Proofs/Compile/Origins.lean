/-
  SchemaGuard — where the faults of compiling come from.

  * `fields.LooksAt e`: compiling a node comes upon `e` in its own keywords;
  * `fields.Unfit f`: a keyword of the node has a value that compiling cannot take;
  * `FaultOrigin d f`: a schema of the document `d` is unfit in this way.

  Compiling a document ends with a fault only from such a schema (`faultOrigin_of_compile`).
  Where a meta-schema admits the document, that schema has a pattern whose reading ends
  with the fault (`hasFaultyPattern_of_compile`).
-/
import Mathlib
import SchemaGuard.Proofs.Compile.Encounters
import SchemaGuard.Proofs.Compile.Safety
import SchemaGuard.Proofs.Validator.Asking

namespace SchemaGuard

open Validator

/-- A keyword of the node has a value that compiling cannot take. -/
inductive Fields.Unfit [CharacterNames] (fields : Fields) : Fault → Prop where
  | pattern {q f} : compilePattern (fields.named "pattern") q = .error (.fault f) → Unfit fields f
  | properties : fields.declared? = none → Unfit fields .propertiesNotObject
  | name {declared key n} : fields.declared? = some declared → (key, n) ∈ declared → ¬ key.isText →
      Unfit fields (.nameNotText key)
  | required {f} : nameSet (fields.named "required") = .error f → Unfit fields f

/-- A schema of the document has a value that compiling cannot take. -/
def FaultOrigin [CharacterNames] (d : Value) (f : Fault) : Prop :=
  ∃ fields : Fields, d.HasSchema (.object fields) ∧ fields.Unfit f

/-- A pattern of the document is a text whose reading ends with the fault. -/
def Value.HasFaultyPattern [CharacterNames] (d : Value) (f : Fault) : Prop :=
  ∃ fields s, d.HasSchema (.object fields) ∧ Fields.named? fields "pattern" = some (.text s) ∧
    Pattern.ofText (Pattern.anchorEnd s.toList) = .error (.fault f)

/-! ## Keywords that are looked at -/

/-- Compiling a node comes upon this in its own keywords. -/
inductive Fields.LooksAt (fields : Fields) : Encounter → Prop where
  | pattern {q} : LooksAt fields (.pattern (fields.named "pattern") q)
  | properties : LooksAt fields (.properties (fields.named "properties"))
  | name {declared key n} : fields.declared? = some declared → (key, n) ∈ declared → ¬ key.isText →
      LooksAt fields (.name key)
  | required : LooksAt fields (.required (fields.named "required"))

section
variable {fields : Fields} {e : Encounter} {q : String}

theorem Fields.looksAt_of_mem_stopsUnder {type : Value} (h : .look e ∈ fields.stopsUnder type q) :
    fields.LooksAt e := by
  unfold stopsUnder at h
  split at h
  next => cases List.mem_singleton.1 h; exact .pattern
  next =>
    rcases List.mem_cons.1 h with heq | h
    · cases heq; exact .properties
    rcases List.mem_append.1 h with h | h
    · obtain ⟨⟨key, n⟩, hf, heq⟩ := List.mem_map.1 h
      rw [propertyFields] at hf
      cases hdeclared : fields.declared? with
      | none => rw [hdeclared] at hf; cases hf
      | some declared =>
        rw [hdeclared] at hf
        cases key with
        | text name => cases heq
        | _ => cases heq; exact .name hdeclared hf Bool.false_ne_true
    · cases List.mem_singleton.1 h; exact .required
  next => simp at h

/-- The stops at a node under a type do not depend on its own type. -/
theorem Fields.stopsUnder_set_type (fields : Fields) (t type : Value) (q : String) :
    (fields.set "type" t).stopsUnder type q = fields.stopsUnder type q := by
  unfold stopsUnder
  split
  next => rw [named, named, named?_set_type (by decide)]
  next =>
    rw [propertyFields_set_type, named, named, named, named, named?_set_type (by decide),
      named?_set_type (by decide)]
  next => rw [enteredUnder_set_type]

/-- What compiling a document comes upon is a visited node, or is looked at in a schema of the document. -/
theorem exists_looksAt_of_mem_encounters {d : Value} {p : String} (h : e ∈ encounters d p) :
    (∃ v ∈ visits d p, e = .node v.2 v.1) ∨
      ∃ fields : Fields, d.HasSchema (.object fields) ∧ fields.LooksAt e := by
  obtain ⟨⟨q, n⟩, hv, rfl | hlook⟩ := exists_visited_of_mem_encounters h
  · exact Or.inl ⟨_, hv, rfl⟩
  refine Or.inr ?_
  rcases visitable_of_mem_visits (Or.inl .self) _ hv with hn | ⟨fields, type, t, hfields, hr, rfl⟩
  · cases n with
    | object fields =>
      simp only [Value.stops] at hlook
      cases hr : Fields.reading fields with
      | typed type => rw [hr] at hlook; exact ⟨fields, hn, Fields.looksAt_of_mem_stopsUnder hlook⟩
      | _ => simp [hr] at hlook
    | _ => cases hlook
  · simp only [Value.stops, Fields.reading_set_type hr, Fields.stopsUnder_set_type] at hlook
    exact ⟨fields, hfields, Fields.looksAt_of_mem_stopsUnder hlook⟩

end

/-! ## Faults -/

section
variable [CharacterNames] {d : Value} {mode : Closedness} {f : Fault} {p : String} {e : Encounter}

theorem Fields.LooksAt.unfit {fields : Fields} (h : fields.LooksAt e) (hf : e.failure = some (.fault f)) :
    fields.Unfit f := by
  cases h with
  | @pattern q =>
    refine .pattern (q := q) ?_
    simp only [Encounter.failure] at hf
    split at hf
    next => cases hf
    next herror => rw [herror, Option.some.inj hf]
  | properties =>
    rw [failure_properties] at hf
    split at hf
    next hnone => cases hf; exact .properties hnone
    next => cases hf
  | name hdeclared hfield hkey => cases hf; exact .name hdeclared hfield hkey
  | required =>
    simp only [Encounter.failure] at hf
    split at hf
    next => cases hf
    next herror => cases hf; exact .required herror

/-- A fault of what compiling comes upon is one of a keyword. -/
theorem exists_looksAt_of_fault (h : e ∈ encounters d p) (hf : e.failure = some (.fault f)) :
    ∃ fields : Fields, d.HasSchema (.object fields) ∧ fields.LooksAt e := by
  rcases exists_looksAt_of_mem_encounters h with ⟨v, -, rfl⟩ | h
  · obtain ⟨_, -, heq⟩ := Option.map_eq_some_iff.1 hf
    cases heq
  · exact h

theorem faultOrigin_of_compile (h : compile d mode p = .error (.fault f)) : FaultOrigin d f := by
  obtain ⟨e, he, hf⟩ := compile_eq_error_iff.1 h
  obtain ⟨fields, hfields, hlook⟩ := exists_looksAt_of_fault he.mem hf
  exact ⟨fields, hfields, hlook.unfit hf⟩

/-- Of the keywords of an admitted schema only a pattern fails with a fault: it is a text whose
    reading ends so. -/
theorem Fields.LooksAt.eq_pattern {fields : Fields} {draft : Draft} (h : fields.LooksAt e)
    (hadmits : draft.Admits (.object fields)) (hfields : Value.IsJson (.object fields))
    (hf : e.failure = some (.fault f)) :
    ∃ s q, fields.named? "pattern" = some (.text s) ∧ e = .pattern (.text s) q ∧
      Pattern.ofText (Pattern.anchorEnd s.toList) = .error (.fault f) := by
  cases h with
  | properties =>
    obtain ⟨declared, hdeclared⟩ := exists_declared hadmits
    rw [failure_properties, hdeclared] at hf
    cases hf
  | name hdeclared hfield hkey => exact absurd (hfields.declared hdeclared _ hfield).1 hkey
  | required =>
    obtain ⟨required, hrequired, -⟩ := exists_nameSet_required hadmits
    rw [Encounter.failure, hrequired] at hf
    cases hf
  | @pattern q =>
    unfold Fields.named at hf ⊢
    cases hsource : fields.named? "pattern" with
    | none => rw [hsource] at hf; cases hf
    | some v =>
      obtain ⟨s, rfl⟩ := hadmits.pattern hsource
      rw [hsource, Option.getD_some, failure_pattern_text_eq_fault_iff] at hf
      exact ⟨s, q, rfl, rfl, hf⟩

/-- In a document that a meta-schema admits, only patterns fail with a fault. -/
theorem exists_pattern_of_fault (hd : d.IsJson) {draft : Draft} (hadmits : draft.Admits d)
    (he : e ∈ encounters d p) (hf : e.failure = some (.fault f)) :
    ∃ (fields : Fields) (s q : String), d.HasSchema (.object fields) ∧
      fields.named? "pattern" = some (.text s) ∧ e = .pattern (.text s) q ∧
      Pattern.ofText (Pattern.anchorEnd s.toList) = .error (.fault f) := by
  obtain ⟨fields, hfields, hlook⟩ := exists_looksAt_of_fault he hf
  obtain ⟨s, q, hsource, heq, hread⟩ := hlook.eq_pattern (hfields.admits hadmits nofun) (hfields.isJson hd) hf
  exact ⟨fields, s, q, hfields, hsource, heq, hread⟩

/-- **Only patterns make the compilation of a checked document fail with a fault**, if the dialect
    is not draft 3. -/
theorem hasFaultyPattern_of_compile (hd : d.IsJson) {draft : Draft} (hdraft : draft ≠ .three) {q : String}
    (hs : draft.check d q = .ok ()) (h : compile d mode p = .error (.fault f)) : d.HasFaultyPattern f := by
  obtain ⟨e, he, hf⟩ := compile_eq_error_iff.1 h
  obtain ⟨fields, s, _, hfields, hsource, -, hread⟩ :=
    exists_pattern_of_fault hd (Draft.admits_of_check hdraft hs) he.mem hf
  exact ⟨fields, s, hfields, hsource, hread⟩

end

end SchemaGuard
