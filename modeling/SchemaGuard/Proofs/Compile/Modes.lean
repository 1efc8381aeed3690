/-
  SchemaGuard — compiling one schema under several defaults.

  `compile_eq_map_withModes`: compiling under a default is compiling under `strip`,
  with other modes in the tree, errors included. With the results on trees under
  other modes this gives the main result, `compile_closedness`.
-/
import Mathlib
import SchemaGuard.Proofs.Compile.Relabeling
import SchemaGuard.Proofs.Validator.Closedness

namespace SchemaGuard

open Validator

/-! ## Modes -/

/-- What becomes of the closedness that an object node has under the default
    `strip` when another default is given. -/
def Closedness.over : (mode : Closedness) → Closedness → Closedness
  | .strict, _ => .strict
  | .passthrough, .strip => .passthrough
  | _, c => c

theorem closednessOf_eq_over (mode : Closedness) (fields : Fields) :
    closednessOf mode fields = mode.over (closednessOf .strip fields) := by
  unfold closednessOf
  rcases fields.named? "additionalProperties" with _ | v
  · cases mode <;> rfl
  · by_cases hf : v = .bool false
    · subst hf; cases mode <;> rfl
    · by_cases ht : v = .bool true
      · subst ht; cases mode <;> rfl
      · cases mode <;> simp [hf, ht, Closedness.over]

/-! ## Three defaults -/

theorem relabels_withModes (mode : Closedness) :
    Relabels .strip mode id (withModes mode.over) where
  append := fun _ _ => rfl
  any := fun _ => rfl
  never := fun _ => rfl
  literal := fun _ _ => rfl
  options := fun _ _ => rfl
  union := fun p branches => by rw [withModes, withModesAll_eq_map, id]
  both := fun _ _ _ => rfl
  kind := fun _ _ => rfl
  text := fun _ _ => rfl
  number := fun _ _ => rfl
  list := fun _ _ _ => rfl
  object := fun p properties required fields => by
    rw [withModes, withModesProperties_eq_map, ← closednessOf_eq_over, id]

/-- Compiling under a default is compiling under `strip`, with other modes, and
    ends in the same error if it ends in one. -/
theorem compile_eq_map_withModes [CharacterNames] (s : Value) (mode : Closedness) (p : String) :
    compile s mode p = (compile s .strip p).map (withModes mode.over) := by
  have h := compile_relabeled (relabels_withModes mode) s p
  rwa [relabeled_id, id] at h

/-- Under every default the same tree, apart from modes. -/
theorem compile_map_withModes_const [CharacterNames] (s : Value) (mode : Closedness) (p : String) (c : Closedness) :
    (compile s mode p).map (withModes fun _ => c) =
      (compile s .strip p).map (withModes fun _ => c) := by
  rw [compile_eq_map_withModes s mode p]
  cases compile s .strip p with
  | error e => rfl
  | ok V => exact congrArg Except.ok (withModes_withModes _ _ V)

theorem eq_withModes_of_compile [CharacterNames] {s : Value} {mode : Closedness} {p : String} {V B : Validator}
    (hV : compile s mode p = .ok V) (hB : compile s .strip p = .ok B) : V = B.withModes mode.over := by
  rw [compile_eq_map_withModes, hB] at hV
  cases hV
  rfl

/-- **Closedness is monotone.** Compiling under the three defaults gives the same
    error or trees that differ in modes only. Under `strip` and `passthrough` the
    trees find the same issues and accept the same values, and the copy that one
    cleans is a part of the copy that the other cleans; what is accepted under
    `strict` is accepted under both. -/
theorem compile_closedness [CharacterNames] (s : Value) (p : String) :
    (∀ mode mode' c, (compile s mode p).map (withModes fun _ => c) =
      (compile s mode' p).map (withModes fun _ => c)) ∧
    ∀ strict strip pass, compile s .strict p = .ok strict → compile s .strip p = .ok strip →
      compile s .passthrough p = .ok pass → ∀ v : Value,
      (∀ issues, strip.run v = .ok (.rejected issues) ↔ pass.run v = .ok (.rejected issues)) ∧
      ((∃ o, strip.run v = .ok (.accepted o)) ↔ ∃ o, pass.run v = .ok (.accepted o)) ∧
      ((∃ o, strict.run v = .ok (.accepted o)) →
        (∃ o, strip.run v = .ok (.accepted o)) ∧ ∃ o, pass.run v = .ok (.accepted o)) ∧
      (s.DistinctKeys → v.IsJson → ∀ o, strip.run v = .ok (.accepted o) →
        ∃ o', pass.run v = .ok (.accepted o') ∧ o'.IsJson ∧ o ≤ o') := by
  refine ⟨fun mode mode' c => ?_, fun strict strip pass hA hB hC v => ?_⟩
  · rw [compile_map_withModes_const s mode, compile_map_withModes_const s mode']
  have hstrict : ∀ c, Closedness.over .passthrough c = .strict ↔ c = .strict := by
    intro c; cases c <;> simp [Closedness.over]
  obtain rfl := eq_withModes_of_compile hA hB
  obtain rfl := eq_withModes_of_compile hC hB
  simp only [run_withModes_eq_rejected_iff hstrict, run_eq_accepted_iff,
    exists_accepts_withModes_iff hstrict, implies_true, true_and, and_self]
  refine ⟨fun hacc => ?_, fun hs hv o ho => ?_⟩
  · obtain ⟨o, ho⟩ := hacc
    exact (Settles.of_withModes rfl ho.settles).2 ⟨o, ho⟩
  · have hd := distinctNames_of_distinctKeys hs hB
    obtain ⟨o', ho'⟩ := (exists_accepts_withModes_iff hstrict).2 ⟨o, ho⟩
    obtain ⟨hj, -⟩ := ho'.isJson_and_le (distinctNames_withModes _ hd) hv
    exact ⟨o', ho', hj, Accepts.le_withModes hstrict rfl hd hv ho ho'⟩

/-- An object with an open record or a text. -/
def openRecord : Value :=
  .object [(.text "type", .text "object"), (.text "properties", .object [(.text "a", .object [
    (.text "anyOf", .list [
      .object [(.text "type", .text "object"),
        (.text "properties", .object [(.text "b", .object [(.text "type", .text "boolean")])])],
      .object [(.text "type", .text "string")]])])])]

/-- The validator of `openRecord`, with one mode for both objects. -/
def openRecordTree (c : Closedness) : Validator :=
  .object "#" [("a", .union "#/properties/a/anyOf"
    [.object "#/properties/a/anyOf/0" [("b", .kind "#/properties/a/anyOf/0/properties/b" "boolean")] [] c,
     .text "#/properties/a/anyOf/1" ⟨none, none, none, none, false⟩])] [] c

theorem compile_closedness_openRecord :
    (openRecordTree .strip).run (.object [(.text "x", .null),
        (.text "a", .object [(.text "b", .bool true), (.text "y", .null)])]) =
      .ok (.accepted (.object [(.text "a", .object [(.text "b", .bool true)])])) ∧
    (∃ o', (openRecordTree .passthrough).run (.object [(.text "x", .null),
        (.text "a", .object [(.text "b", .bool true), (.text "y", .null)])]) = .ok (.accepted o') ∧
      o'.IsJson ∧ Value.object [(.text "a", .object [(.text "b", .bool true)])] ≤ o') ∧
    ∃ o, (openRecordTree .strip).run (.object [(.text "a", .text "z")]) = .ok (.accepted o) := by
  have hA : compile openRecord .strict "#" = .ok (openRecordTree .strict) := by cbv
  have hB : compile openRecord .strip "#" = .ok (openRecordTree .strip) := by cbv
  have hC : compile openRecord .passthrough "#" = .ok (openRecordTree .passthrough) := by cbv
  have hrun : (openRecordTree .strip).run (.object [(.text "x", .null),
      (.text "a", .object [(.text "b", .bool true), (.text "y", .null)])]) =
      .ok (.accepted (.object [(.text "a", .object [(.text "b", .bool true)])])) := by cbv
  have hstrict : (openRecordTree .strict).run (.object [(.text "a", .text "z")]) =
      .ok (.accepted (.object [(.text "a", .text "z")])) := by cbv
  obtain ⟨-, htrees⟩ := compile_closedness openRecord "#"
  obtain ⟨-, -, -, hpart⟩ := htrees _ _ _ hA hB hC (.object [(.text "x", .null),
    (.text "a", .object [(.text "b", .bool true), (.text "y", .null)])])
  obtain ⟨-, -, hmono, -⟩ := htrees _ _ _ hA hB hC (.object [(.text "a", .text "z")])
  exact ⟨hrun, hpart (by decide) (by decide) _ hrun, (hmono ⟨_, hstrict⟩).1⟩

end SchemaGuard
