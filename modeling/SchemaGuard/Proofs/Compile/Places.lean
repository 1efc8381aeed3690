/-
  SchemaGuard — where issues are.

  * `Asks.place_cases`: the place of a violation is the part that the node is asked
    about, an element of it that repeats an earlier one, or a key that it lacks;
  * main result: `compile_paths`, that the path of every issue leads to what was
    rejected, and that its text can be read back.
-/
import Mathlib
import SchemaGuard.Proofs.Compile.Shape
import SchemaGuard.Proofs.Validator.Asking
import SchemaGuard.Proofs.Validator.Messages

namespace SchemaGuard

open Validator

/-- The element of a sequence at a position is the same data as an earlier one. -/
def Value.Repeats (x : Value) (k : Nat) (y : Value) : Prop :=
  ∃ xs j z, x.elements? = some xs ∧ j < k ∧ xs[j]? = some z ∧ xs[k]? = some y ∧ y.sameData z

/-- Only one finding has this message. -/
theorem Finding.message_eq_required_iff {f : Finding} : f.message = "Required" ↔ f = .missing := by
  constructor
  · intro h
    have hopening : f.opening = "Required" ∨ (f.opening, "Required") ∈ extendedOpenings ∨
        ("Required", f.opening) ∈ extendedOpenings := opening_eq_of_message_eq (g := .missing) h
    cases f with
    | missing => rfl
    | _ => simp [opening, extendedOpenings] at hopening
  · rintro rfl; rfl

/-- The place of a violation is that of the part, that of an element which repeats an
    earlier one, or a key that the object does not have. -/
theorem Validator.Asks.place_cases {V W : Validator} {v x : Value} {place rest : Path} {f : Finding}
    (h : V.Asks v place W x) (hv : W.Violates x rest f) :
    (f ≠ .missing ∧ rest = [] ∧ v.part? (place ++ rest) = some x) ∨
    (f = .repeatedItem ∧ ∃ k y, rest = [.index k] ∧ x.Repeats k y ∧ v.part? (place ++ rest) = some y) ∨
    (f = .missing ∧ ∃ name, ∃ fields : Fields, rest = [.key name] ∧ x = .object fields ∧
      fields.named? name = none) := by
  have hpart : v.part? (place ++ rest) = x.part? rest := by
    rw [Value.part?_append, h.part?_eq, Option.bind_some]
  rw [hpart]
  cases hv with
  | repeatedItem hxs _ hij hy hz hsame =>
    refine Or.inr (Or.inl ⟨rfl, _, _, rfl, ⟨_, _, _, hxs, hij, hy, hz, hsame⟩, ?_⟩)
    rw [Value.part?_cons, Value.enter?_index hxs, hz, Option.bind_some, Value.part?_nil]
  | missing _ _ hnone => exact Or.inr (Or.inr ⟨rfl, _, _, rfl, rfl, hnone⟩)
  | _ => exact Or.inl ⟨nofun, rfl, rfl⟩

theorem Validator.Traces.locates {V : Validator} {v : Value} {i : Issue} (h : V.Traces v [] i) :
    v.Locates i.path := by
  obtain ⟨place, W, x, rest, hask, hviolates, -, hpath⟩ := h
  rw [hpath, List.nil_append]
  rcases hask.place_cases hviolates with ⟨-, -, hx⟩ | ⟨-, k, y, -, -, hy⟩ | ⟨-, name, fields, rfl, rfl, hnone⟩
  · exact Or.inl ⟨x, hx⟩
  · exact Or.inl ⟨y, hy⟩
  · exact Or.inr ⟨place, name, fields, rfl, hask.part?_eq, hnone⟩

/-- **Issue paths locate what was rejected.** Behind every issue of a verdict, at any
    depth, there is a node with its pointer that was asked about the part `x` at
    `place` and rejects it. The path of the issue leads to that part, or to the element
    of it that repeats an earlier one; only the path of a missing property ends at a
    key that the object at `place` does not have. In the value, the text of each path
    is read back as the path, so issues with different paths have different texts. -/
theorem compile_paths [CharacterNames] {s : Value} {mode : Closedness} {p : String} {V : Validator}
    (hs : s.DistinctKeys)
    (hV : compile s mode p = .ok V) {v : Value} {verdict : Verdict} (hrun : V.run v = .ok verdict) :
    (∀ i ∈ Issue.allOf verdict.issues, ∃ W x place rest, V.Asks v place W x ∧ W.pointer = i.pointer ∧
      W.Rejects x ∧ W.Violates x rest i.finding ∧ i.path = place ++ rest ∧ v.part? place = some x ∧
      (i.message ≠ "Required" → ∃ y, v.part? i.path = some y ∧
        (rest = [] ∧ y = x ∨ i.finding = .repeatedItem ∧ ∃ k, rest = [.index k] ∧ x.Repeats k y)) ∧
      (i.message = "Required" → ∃ name, ∃ fields : Fields, rest = [.key name] ∧ x = .object fields ∧
        fields.named? name = none)) ∧
    (∀ i ∈ Issue.allOf verdict.issues, v.readPath? (Pointer.tokens i.path.text) = some i.path) ∧
    ∀ i ∈ Issue.allOf verdict.issues, ∀ j ∈ Issue.allOf verdict.issues, i.path ≠ j.path →
      i.path.text ≠ j.path.text := by
  have hd := distinctNames_of_distinctKeys hs hV
  obtain ⟨o, hcheck⟩ := exists_check_of_run hrun
  have hsettles : V.Settles v := ⟨_, hcheck⟩
  have htraces : ∀ i ∈ Issue.allOf verdict.issues, V.Traces v [] i :=
    (reports_of_check hd hcheck).exists_asks hsettles
  refine ⟨fun i hi => ?_, fun i hi => Value.readPath?_tokens (htraces i hi).locates,
    fun i hi j hj hne heq => hne ((htraces i hi).locates.text_injective (htraces j hj).locates heq)⟩
  obtain ⟨place, W, x, rest, hask, hviolates, hpointer, hpath⟩ := htraces i hi
  rw [List.nil_append] at hpath
  have hrejects : W.Rejects x := hviolates.rejects (hd.of_mem_nodes hask.mem_nodes) (hask.settles hsettles)
  refine ⟨W, x, place, rest, hask, hpointer, hrejects, hviolates, hpath, hask.part?_eq, fun hm => ?_,
    fun hm => ?_⟩
  · have hfinding : i.finding ≠ .missing := fun h => hm (Finding.message_eq_required_iff.2 h)
    rw [hpath]
    rcases hask.place_cases hviolates with ⟨-, hnil, hx⟩ | ⟨hrepeated, k, y, hindex, hk, hy⟩ | ⟨h, -⟩
    · exact ⟨x, hx, Or.inl ⟨hnil, rfl⟩⟩
    · exact ⟨y, hy, Or.inr ⟨hrepeated, k, hindex, hk⟩⟩
    · exact absurd h hfinding
  · have hfinding : i.finding = .missing := Finding.message_eq_required_iff.1 hm
    rcases hask.place_cases hviolates with ⟨h, -⟩ | ⟨h, -⟩ | ⟨-, hmissing⟩
    · exact absurd hfinding h
    · rw [hfinding] at h; cases h
    · exact hmissing

/-- A text, or a list of objects that have null under the name `0`, all under `a/b`. -/
def slashedZeros : Value :=
  .object [(.text "type", .text "object"), (.text "properties", .object [(.text "a/b",
    .object [(.text "anyOf", .list [.object [(.text "type", .text "string")],
      .object [(.text "type", .text "array"), (.text "uniqueItems", .bool true), (.text "items",
        .object [(.text "type", .text "object"), (.text "required", .list [.text "0"]),
          (.text "properties", .object [(.text "0", .object [(.text "type", .text "null")])])])]])])])]

theorem compile_paths_slashedZeros : ∃ V issues, compile slashedZeros .strip "#" = .ok V ∧
    V.run (.object [(.text "a/b", .list [.object [(.text "0", .int 7)], .object [], .object []])]) =
      .ok (.rejected issues) ∧
    (Issue.allOf issues).map Issue.path = [[.key "a/b"], [.key "a/b"],
      [.key "a/b", .index 0, .key "0"], [.key "a/b", .index 1, .key "0"],
      [.key "a/b", .index 2, .key "0"], [.key "a/b", .index 2]] ∧
    ∀ i ∈ Issue.allOf issues, Value.readPath?
      (.object [(.text "a/b", .list [.object [(.text "0", .int 7)], .object [], .object []])])
      (Pointer.tokens i.path.text) = some i.path := by
  let items : Validator := .object "#/properties/a~1b/anyOf/1/items"
    [("0", .kind "#/properties/a~1b/anyOf/1/items/properties/0" "null")] [.text "0"] .strip
  let V : Validator := .object "#" [("a/b", .union "#/properties/a~1b/anyOf"
    [.text "#/properties/a~1b/anyOf/0" ⟨none, none, none, none, false⟩,
     .list "#/properties/a~1b/anyOf/1" items ⟨none, none, true⟩])] [] .strip
  let v : Value := .object [(.text "a/b", .list [.object [(.text "0", .int 7)], .object [], .object []])]
  let causes : List Issue :=
    [.mk "#/properties/a~1b/anyOf/0" [.key "a/b"] (.wrongKind "string" "array") [],
     .mk "#/properties/a~1b/anyOf/1/items/properties/0" [.key "a/b", .index 0, .key "0"]
       (.wrongKind "null" "integer") [],
     .mk "#/properties/a~1b/anyOf/1/items" [.key "a/b", .index 1, .key "0"] .missing [],
     .mk "#/properties/a~1b/anyOf/1/items" [.key "a/b", .index 2, .key "0"] .missing [],
     .mk "#/properties/a~1b/anyOf/1" [.key "a/b", .index 2] .repeatedItem []]
  let issues : List Issue := [.mk "#/properties/a~1b/anyOf" [.key "a/b"] (.noAlternative 2) causes]
  have hV : compile slashedZeros .strip "#" = .ok V := by cbv
  have hrun : V.run v = .ok (.rejected issues) := by cbv
  obtain ⟨-, hread, -⟩ := compile_paths (by decide) hV hrun
  exact ⟨V, issues, hV, hrun, rfl, hread⟩

end SchemaGuard
