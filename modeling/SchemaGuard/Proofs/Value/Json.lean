/-
  SchemaGuard — the values that JSON texts denote.

  * `Value.parts` lists a value and everything inside it; conditions on data are
    conditions on all parts;
  * `DistinctKeys`: no object has a key twice;
  * `IsJson`: null, truth values, numbers, texts, lists, and objects whose keys
    are pairwise different texts;
  * `InRange`: integers have a nearest finite double; `AllFinite`: no NaN and no
    infinity; `Showable`: messages can show the integers;
  * `mem_iff_lookup`: in such an object a field is there exactly if looking its
    key up finds it.
-/
import Mathlib
import SchemaGuard.Value.Basic

namespace SchemaGuard

/-- Whether a scalar is a text. -/
def Scalar.isText : Scalar → Bool
  | .text _ => true
  | _ => false

namespace Value

/-- Induction over data: what holds of scalars and passes from the parts to a
    container holds of every value. -/
@[elab_as_elim, induction_eliminator]
theorem induction {motive : Value → Prop} (scalar : ∀ s, motive (.scalar s))
    (list : ∀ items, (∀ x ∈ items, motive x) → motive (.list items))
    (tuple : ∀ items, (∀ x ∈ items, motive x) → motive (.tuple items))
    (object : ∀ fields : Fields, (∀ f ∈ fields, motive f.2) → motive (.object fields)) :
    ∀ v, motive v
  | .scalar s => scalar s
  | .list items => list items fun x _ => induction scalar list tuple object x
  | .tuple items => tuple items fun x _ => induction scalar list tuple object x
  | .object fields => object fields fun f hf => by
    have : sizeOf f.2 < 1 + sizeOf fields := by
      have := List.sizeOf_lt_of_mem hf
      cases f; simp only [Prod.mk.sizeOf_spec] at this ⊢; omega
    exact induction scalar list tuple object f.2

/-! ## Parts -/

mutual
/-- A value and everything inside it. -/
def parts : Value → List Value
  | .scalar s => [.scalar s]
  | .list items => .list items :: partsOfItems items
  | .tuple items => .tuple items :: partsOfItems items
  | .object fields => .object fields :: partsOfFields fields
/-- Everything inside items. -/
def partsOfItems : List Value → List Value
  | [] => []
  | item :: items => item.parts ++ partsOfItems items
/-- Everything inside the values of fields. -/
def partsOfFields : List (Scalar × Value) → List Value
  | [] => []
  | (_, v) :: fields => v.parts ++ partsOfFields fields
end

theorem mem_partsOfItems {x : Value} : ∀ {items : List Value},
    x ∈ partsOfItems items ↔ ∃ item ∈ items, x ∈ item.parts
  | [] => by simp [partsOfItems]
  | item :: items => by simp [partsOfItems, @mem_partsOfItems x items]

theorem mem_partsOfFields {x : Value} : ∀ {fields : Fields},
    x ∈ partsOfFields fields ↔ ∃ f ∈ fields, x ∈ f.2.parts
  | [] => by simp [partsOfFields]
  | (k, v) :: fields => by simp [partsOfFields, @mem_partsOfFields x fields]

theorem self_mem_parts (v : Value) : v ∈ v.parts := by
  cases v <;> simp [parts]

theorem item_mem_parts {items : List Value} {x : Value} (h : x ∈ items) : x ∈ (list items).parts :=
  List.mem_cons_of_mem _ (mem_partsOfItems.2 ⟨x, h, x.self_mem_parts⟩)

theorem field_mem_parts {fields : Fields} {f : Scalar × Value} (h : f ∈ fields) :
    f.2 ∈ (object fields).parts :=
  List.mem_cons_of_mem _ (mem_partsOfFields.2 ⟨f, h, f.2.self_mem_parts⟩)

/-- The parts of a part are parts of the whole. -/
theorem parts_subset {v x : Value} (h : x ∈ v.parts) : x.parts ⊆ v.parts := by
  induction v with
  | scalar s => rw [List.mem_singleton.1 h]; exact List.Subset.refl _
  | list items ih | tuple items ih =>
    rcases List.mem_cons.1 h with rfl | h
    · exact List.Subset.refl _
    · obtain ⟨item, hitem, hx⟩ := mem_partsOfItems.1 h
      exact fun y hy => List.mem_cons_of_mem _ (mem_partsOfItems.2 ⟨item, hitem, ih item hitem hx hy⟩)
  | object fields ih =>
    rcases List.mem_cons.1 h with rfl | h
    · exact List.Subset.refl _
    · obtain ⟨f, hf, hx⟩ := mem_partsOfFields.1 h
      exact fun y hy => List.mem_cons_of_mem _ (mem_partsOfFields.2 ⟨f, hf, ih f hf hx hy⟩)

section Throughout
variable {P : Value → Prop}

theorem forall_parts_scalar {s : Scalar} : (∀ x ∈ parts (.scalar s), P x) ↔ P (.scalar s) := by
  simp [parts]

theorem forall_parts_list {items : List Value} :
    (∀ x ∈ parts (.list items), P x) ↔ P (.list items) ∧ ∀ i ∈ items, ∀ x ∈ i.parts, P x := by
  simp only [parts, List.forall_mem_cons, mem_partsOfItems]
  exact and_congr_right fun _ => ⟨fun h i hi x hx => h x ⟨i, hi, hx⟩, fun h x ⟨i, hi, hx⟩ => h i hi x hx⟩

theorem forall_parts_tuple {items : List Value} :
    (∀ x ∈ parts (.tuple items), P x) ↔ P (.tuple items) ∧ ∀ i ∈ items, ∀ x ∈ i.parts, P x := by
  simp only [parts, List.forall_mem_cons, mem_partsOfItems]
  exact and_congr_right fun _ => ⟨fun h i hi x hx => h x ⟨i, hi, hx⟩, fun h x ⟨i, hi, hx⟩ => h i hi x hx⟩

theorem forall_parts_object {fields : Fields} :
    (∀ x ∈ parts (.object fields), P x) ↔
      P (.object fields) ∧ ∀ f ∈ fields, ∀ x ∈ f.2.parts, P x := by
  simp only [parts, List.forall_mem_cons, mem_partsOfFields]
  exact and_congr_right fun _ => ⟨fun h i hi x hx => h x ⟨i, hi, hx⟩, fun h x ⟨i, hi, hx⟩ => h i hi x hx⟩

end Throughout

/-! ## JSON data -/

/-- What JSON allows of a value apart from its parts. -/
def isJsonNode : Value → Bool
  | .null | .bool _ | .number _ | .text _ | .list _ => true
  | .object fields => decide (Fields.keys fields).Nodup && (Fields.keys fields).all Scalar.isText
  | _ => false

/-- Data that a JSON text denotes. -/
def IsJson (v : Value) : Prop := ∀ x ∈ v.parts, x.isJsonNode

instance (v : Value) : Decidable v.IsJson := by unfold IsJson; infer_instance

theorem isJson_list {items : List Value} : IsJson (.list items) ↔ ∀ x ∈ items, x.IsJson := by
  simp [IsJson, forall_parts_list, isJsonNode]

theorem not_isJson_tuple {items : List Value} : ¬ IsJson (.tuple items) := by
  simp [IsJson, forall_parts_tuple, isJsonNode]

theorem isJson_object {fields : Fields} :
    IsJson (.object fields) ↔
      fields.keys.Nodup ∧ (∀ k ∈ fields.keys, k.isText) ∧ ∀ f ∈ fields, f.2.IsJson := by
  simp [IsJson, forall_parts_object, isJsonNode, and_assoc]

/-- Whether a value is no object that has a key twice. -/
def isDistinctNode : Value → Bool
  | .object fields => decide (Fields.keys fields).Nodup
  | _ => true

/-- Data in which no object has a key twice. -/
def DistinctKeys (v : Value) : Prop := ∀ x ∈ v.parts, x.isDistinctNode

instance (v : Value) : Decidable v.DistinctKeys := by unfold DistinctKeys; infer_instance

theorem distinctKeys_list {items : List Value} :
    DistinctKeys (.list items) ↔ ∀ x ∈ items, x.DistinctKeys := by
  simp [DistinctKeys, forall_parts_list, isDistinctNode]

theorem distinctKeys_object {fields : Fields} :
    DistinctKeys (.object fields) ↔ fields.keys.Nodup ∧ ∀ f ∈ fields, f.2.DistinctKeys := by
  simp [DistinctKeys, forall_parts_object, isDistinctNode]

theorem IsJson.distinctKeys {v : Value} (h : v.IsJson) : v.DistinctKeys := by
  intro x hx
  have hnode := h x hx
  cases x with
  | object fields => simp_all [isJsonNode, isDistinctNode]
  | _ => rfl

/-- Whether a value is no integer that is too large for a double. -/
def isInRangeNode : Value → Bool
  | .int n => withinDoubleRange n
  | _ => true

/-- Data whose integers all have a nearest finite double. -/
def InRange (v : Value) : Prop := ∀ x ∈ v.parts, x.isInRangeNode

instance (v : Value) : Decidable v.InRange := by unfold InRange; infer_instance

theorem inRange_list {items : List Value} : InRange (.list items) ↔ ∀ x ∈ items, x.InRange := by
  simp [InRange, forall_parts_list, isInRangeNode]

theorem inRange_tuple {items : List Value} : InRange (.tuple items) ↔ ∀ x ∈ items, x.InRange := by
  simp [InRange, forall_parts_tuple, isInRangeNode]

theorem inRange_object {fields : Fields} : InRange (.object fields) ↔ ∀ f ∈ fields, f.2.InRange := by
  simp [InRange, forall_parts_object, isInRangeNode]

section
variable {fields : Fields} {name : String} {x : Value} (hx : fields.named? name = some x)
include hx

theorem IsJson.named? (h : IsJson (.object fields)) : x.IsJson :=
  (isJson_object.1 h).2.2 _ (Fields.mem_of_named? hx)

theorem InRange.named? (h : InRange (.object fields)) : x.InRange :=
  inRange_object.1 h _ (Fields.mem_of_named? hx)

end

/-- Whether a value is neither a NaN nor an infinity. -/
def isFiniteNode : Value → Bool
  | .double (.infinite _) | .double (.nan _) => false
  | _ => true

/-- Data whose numbers are all finite. -/
def AllFinite (v : Value) : Prop := ∀ x ∈ v.parts, x.isFiniteNode

instance (v : Value) : Decidable v.AllFinite := by unfold AllFinite; infer_instance

theorem allFinite_list {items : List Value} :
    AllFinite (.list items) ↔ ∀ x ∈ items, x.AllFinite := by
  simp [AllFinite, forall_parts_list, isFiniteNode]

theorem allFinite_object {fields : Fields} :
    AllFinite (.object fields) ↔ ∀ f ∈ fields, f.2.AllFinite := by
  simp [AllFinite, forall_parts_object, isFiniteNode]

/-- Whether messages can show a scalar: an integer has `digitLimit` digits at most. -/
def isShowableScalar : Scalar → Bool
  | .number (.int n) => n.natAbs < 10 ^ digitLimit
  | _ => true

/-- Whether messages can show a value, if they can show its parts. -/
def isShowableNode : Value → Bool
  | .scalar s => isShowableScalar s
  | .object fields => (Fields.keys fields).all isShowableScalar
  | _ => true

/-- Data that messages can show, since no integer in it has more than `digitLimit` digits. -/
def Showable (v : Value) : Prop := ∀ x ∈ v.parts, x.isShowableNode

instance (v : Value) : Decidable v.Showable := by unfold Showable; infer_instance

theorem showable_list {items : List Value} : Showable (.list items) ↔ ∀ x ∈ items, x.Showable := by
  simp [Showable, forall_parts_list, isShowableNode]

theorem showable_object {fields : Fields} :
    Showable (.object fields) ↔
      (∀ k ∈ fields.keys, isShowableScalar k) ∧ ∀ f ∈ fields, f.2.Showable := by
  simp [Showable, forall_parts_object, isShowableNode]

theorem Showable.part {v x : Value} (h : v.Showable) (hx : x ∈ v.parts) : x.Showable :=
  fun y hy => h y (parts_subset hx hy)

theorem Showable.named? {fields : Fields} (h : Showable (.object fields)) {name : String} {x : Value}
    (hx : fields.named? name = some x) : x.Showable :=
  (showable_object.1 h).2 _ (Fields.mem_of_named? hx)

theorem Showable.named {fields : Fields} (h : Showable (.object fields)) (name : String) :
    (fields.named name).Showable := by
  rw [Fields.named]
  cases hx : fields.named? name with
  | none => exact forall_parts_scalar.2 rfl
  | some x => exact h.named? hx

end Value

/-! ## Fields with different keys -/

namespace Fields

theorem lookup_cons (l k : Scalar) (x : Value) (fields : Fields) :
    List.lookup k ((l, x) :: fields) = if k = l then some x else List.lookup k fields := by
  rw [List.lookup_cons]
  split <;> simp_all

theorem named?_eq_lookup (fields : Fields) (name : String) :
    fields.named? name = List.lookup (.text name) fields := by
  induction fields with
  | nil => rfl
  | cons f fields ih =>
    obtain ⟨k, x⟩ := f
    rw [named?_cons, lookup_cons, ih]
    simp only [eq_comm]

theorem mem_of_lookup {fields : Fields} {k : Scalar} {x : Value} (h : List.lookup k fields = some x) :
    (k, x) ∈ fields := by
  obtain ⟨l₁, l₂, rfl, -⟩ := List.lookup_eq_some_iff.1 h
  simp

/-- Looking a key up finds the field that has it. -/
theorem lookup_eq_some_iff {fields : Fields} (h : fields.keys.Nodup) {k : Scalar} {x : Value} :
    List.lookup k fields = some x ↔ (k, x) ∈ fields := by
  refine ⟨mem_of_lookup, fun hx => ?_⟩
  induction fields with
  | nil => simp at hx
  | cons f fields ih =>
    obtain ⟨l, y⟩ := f
    simp only [keys, List.map_cons, List.nodup_cons, List.mem_map, not_exists, not_and] at h
    rcases List.mem_cons.1 hx with heq | hx
    · cases heq; simp
    · have hne : k ≠ l := fun heq => h.1 (k, x) hx heq
      rw [List.lookup_cons, beq_false_of_ne hne]
      exact ih h.2 hx

theorem lookup_isSome_iff {fields : Fields} {k : Scalar} :
    (List.lookup k fields).isSome ↔ k ∈ fields.keys := by
  simp only [List.lookup_isSome_iff, keys, List.mem_map, beq_iff_eq]
  exact exists_congr fun f => and_congr_right fun _ => eq_comm

end Fields

end SchemaGuard
