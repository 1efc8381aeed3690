/-
  SchemaGuard — cleaning that takes nothing out.

  `v.SameForm w` says that two values are the same leaf, lists of one length or objects
  with the same keys. Values that are alike have at every path parts of the same form
  (`Alike.rel_part?`).

  Main result: `compile_lossless`. Under a default that is not `strip` an accepted value
  is returned as it is, but for the order of fields.
-/
import Mathlib
import SchemaGuard.Proofs.Compile.Shape
import SchemaGuard.Proofs.Validator.Cleaning
import SchemaGuard.Proofs.Value.Entries

namespace SchemaGuard

open Validator Value

namespace Value

/-! ## Entries of values that are alike -/

/-- The same value, apart from what is inside and from the order of fields. -/
def SameForm : Value → Value → Prop
  | .scalar s, .scalar t => s = t
  | .list xs, .list ys => xs.length = ys.length
  | .object fs, .object gs => (Fields.keys fs).Perm (Fields.keys gs)
  | _, _ => False

section
variable {v w : Value}

theorem Alike.sameForm (h : v.Alike w) (hv : v.IsJson) (hw : w.IsJson) : v.SameForm w := by
  cases v with
  | scalar s => rw [alike_scalar_iff.1 h]; rfl
  | tuple items => exact absurd hv not_isJson_tuple
  | list xs =>
    obtain ⟨ys, rfl, hxy⟩ := alike_list_iff.1 h
    exact hxy.length_eq
  | object fs =>
    obtain ⟨gs, rfl, -⟩ := object_le_iff.1 h.1
    exact h.keys_perm (isJson_object.1 hv).1 (isJson_object.1 hw).1

/-- At every path both values have a part, and the parts are alike, or neither has one. -/
theorem Alike.rel_part? (h : v.Alike w) (path : Path) :
    Option.Rel Alike (v.part? path) (w.part? path) := by
  cases hx : v.part? path with
  | none =>
    cases hy : w.part? path with
    | none => exact .none
    | some y =>
      obtain ⟨x, hx', -⟩ := part?_of_le h.2 hy
      rw [hx] at hx'; cases hx'
  | some x =>
    obtain ⟨y, hy, hxy⟩ := part?_of_le h.1 hx
    obtain ⟨x', hx', hyx⟩ := part?_of_le h.2 hy
    obtain rfl := Option.some.inj (hx.symm.trans hx')
    rw [hy]
    exact .some ⟨hxy, hyx⟩

theorem IsJson.part? (hv : v.IsJson) {path : Path} {x : Value} (h : v.part? path = some x) :
    x.IsJson := by
  induction path generalizing v with
  | nil => cases h; exact hv
  | cons step path ih =>
    obtain ⟨y, hy, hx⟩ := Option.bind_eq_some_iff.1 h
    exact ih (hv.enter? hy) hx

theorem Alike.rel_sameForm (h : v.Alike w) (hv : v.IsJson) (hw : w.IsJson) (path : Path) :
    Option.Rel SameForm (v.part? path) (w.part? path) := by
  have hparts := h.rel_part? path
  generalize hx : v.part? path = x, hy : w.part? path = y at hparts
  cases hparts with
  | none => exact .none
  | some hxy => exact .some (hxy.sameForm (hv.part? hx) (hw.part? hy))

end

end Value

/-! ## Compiled trees -/

/-- **Without stripping nothing is lost.** A schema that compiles under a default other
    than `strip` has a tree without stripping nodes, and the value that the tree returns for
    accepted JSON data is the data up to the order of fields: the two have the same paths,
    and along each path the same leaf, a list of the same length or an object with the
    same keys. -/
theorem compile_lossless [CharacterNames] {s : Value} {mode : Closedness} {p : String} {V : Validator}
    (hs : s.DistinctKeys) (hm : mode ≠ .strip) (hV : compile s mode p = .ok V) :
    (∀ q properties required, Validator.object q properties required .strip ∉ V.nodes) ∧
    ∀ v o : Value, v.IsJson → V.run v = .ok (.accepted o) →
      o.IsJson ∧ o.Alike v ∧ ∀ path, Option.Rel SameForm (o.part? path) (v.part? path) := by
  have hkeeping := keeping_of_distinctKeys hm hs hV
  have hnames := distinctNames_of_distinctKeys hs hV
  refine ⟨fun q properties required hmem => hkeeping _ hmem rfl, fun v o hv h => ?_⟩
  rw [run_eq_accepted_iff] at h
  obtain ⟨ho, hov⟩ := h.isJson_and_le hnames hv
  have halike : o.Alike v := ⟨hov, hkeeping.le_output hnames hv h⟩
  exact ⟨ho, halike, halike.rel_sameForm ho hv⟩

/-- A text, or an object with a grid of switches and a label. -/
def labelledGrid : Value :=
  .object [(.text "anyOf", .list [.object [(.text "type", .text "string")],
    .object [(.text "allOf", .list [
      .object [(.text "type", .text "object"), (.text "properties", .object [(.text "grid",
        .object [(.text "type", .text "array"), (.text "items", .object [(.text "type", .text "array"),
          (.text "items", .object [(.text "type", .text "boolean")])])])])],
      .object [(.text "type", .text "object"), (.text "properties",
        .object [(.text "label", .object [(.text "type", .list [.text "string", .text "null"])])])]])]])]

/-- A grid, between a label and a field that nothing declares. -/
def grid : Value :=
  .object [(.text "label", .null),
    (.text "grid", .list [.list [.bool true, .bool false], .list []]),
    (.text "unit", .text "m")]

/-- The same grid, with its fields in the order of the schema. -/
def orderedGrid : Value :=
  .object [(.text "grid", .list [.list [.bool true, .bool false], .list []]),
    (.text "label", .null), (.text "unit", .text "m")]

/-- The tree of `labelledGrid` under the default `passthrough`. -/
def labelledGridTree : Validator :=
  .union "#/anyOf" [.text "#/anyOf/0" ⟨none, none, none, none, false⟩,
    .both "#/anyOf/1/allOf"
      (.object "#/anyOf/1/allOf/0" [("grid", .list "#/anyOf/1/allOf/0/properties/grid"
        (.list "#/anyOf/1/allOf/0/properties/grid/items"
          (.kind "#/anyOf/1/allOf/0/properties/grid/items/items" "boolean")
          ⟨none, none, false⟩) ⟨none, none, false⟩)] [] .passthrough)
      (.object "#/anyOf/1/allOf/1" [("label", .union "#/anyOf/1/allOf/1/properties/label/type"
        [.text "#/anyOf/1/allOf/1/properties/label/type/0" ⟨none, none, none, none, false⟩,
          .kind "#/anyOf/1/allOf/1/properties/label/type/1" "null"])] [] .passthrough)]

theorem compile_lossless_labelledGrid :
    compile labelledGrid .passthrough "#" = .ok labelledGridTree ∧
    labelledGridTree.run grid = .ok (.accepted orderedGrid) ∧ orderedGrid.Alike grid := by
  have hV : compile labelledGrid .passthrough "#" = .ok labelledGridTree := by cbv
  have hrun : labelledGridTree.run grid = .ok (.accepted orderedGrid) := by cbv
  obtain ⟨-, hlossless⟩ := compile_lossless (by decide) (by decide) hV
  obtain ⟨-, halike, -⟩ := hlossless grid orderedGrid (by decide) hrun
  exact ⟨hV, hrun, halike⟩

end SchemaGuard
