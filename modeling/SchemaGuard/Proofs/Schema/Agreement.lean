/-
  SchemaGuard — compiled schemas decide what schemas mean.

  `V.Decides P` says that `V` comes to an end on every instance and accepts those
  with the property `P`. The readings of a node are taken one by one, from the
  rules of single types to unions and intersections.

  * `decides_name`: a node read under the name of a type;
  * `compile_decides`: a supported schema is decided by its compiled tree.

  The patterns of the schemas are `Pattern.Anchorable`: over others, the pass that anchors a
  pattern may leave a `$` in its place, where it matches before a last line end too.
-/
import Mathlib
import SchemaGuard.Proofs.Compile.Shape
import SchemaGuard.Proofs.Pattern.EndAnchors
import SchemaGuard.Proofs.Schema.Meaning
import SchemaGuard.Proofs.Validator.Cleaning

namespace SchemaGuard

open Validator

/-! ## Instances -/

/-- JSON data with finite numbers, whose integers have a nearest double. -/
structure Value.IsInstance (v : Value) : Prop where
  isJson : v.IsJson
  allFinite : v.AllFinite
  inRange : v.InRange

theorem Value.IsInstance.item {xs : List Value} (h : Value.IsInstance (.list xs)) {x : Value}
    (hx : x ∈ xs) : x.IsInstance :=
  ⟨isJson_list.1 h.1 x hx, allFinite_list.1 h.2 x hx, inRange_list.1 h.3 x hx⟩

theorem Value.IsInstance.field {fs : Fields} (h : Value.IsInstance (.object fs))
    {f : Scalar × Value} (hf : f ∈ fs) : f.2.IsInstance :=
  ⟨(isJson_object.1 h.1).2.2 f hf, allFinite_object.1 h.2 f hf, inRange_object.1 h.3 f hf⟩

/-- A validator accepts exactly the instances with a property. -/
def Validator.Decides (V : Validator) (P : Value → Prop) : Prop :=
  V.NumericSizes ∧ ∀ v : Value, v.IsInstance → ((∃ o, V.Accepts v o) ↔ P v)

theorem numericSizes_of_leaf {V : Validator} (hs : V.sizeBounds = []) (hc : V.children = []) :
    V.NumericSizes :=
  throughout_iff.2 ⟨by simp [hs], by simp [hc]⟩

theorem Validator.Decides.congr {V : Validator} {P Q : Value → Prop} (h : V.Decides P)
    (hPQ : ∀ v, v.IsInstance → (P v ↔ Q v)) : V.Decides Q :=
  ⟨h.1, fun v hv => (h.2 v hv).trans (hPQ v hv)⟩

/-! ## Numbers and sizes -/

section
variable {fields : Fields}

theorem Value.AllFinite.value? {n : Number} (h : Value.AllFinite (.number n)) :
    ∃ x, n.value? = some x := h.naNFree.value?

theorem Number.lt_eq_false_iff {a b : Number} (ha : ∃ x, a.value? = some x)
    (hb : ∃ y, b.value? = some y) : a.lt b = false ↔ b.AtMost a := by
  obtain ⟨x, hx⟩ := ha
  obtain ⟨y, hy⟩ := hb
  rw [← Bool.not_eq_true, Number.lt_iff, Number.AtMost]
  simp [hx, hy]

theorem Number.le_eq_false_iff {a b : Number} (ha : ∃ x, a.value? = some x)
    (hb : ∃ y, b.value? = some y) : a.le b = false ↔ b.Below a := by
  obtain ⟨x, hx⟩ := ha
  obtain ⟨y, hy⟩ := hb
  rw [← Bool.not_eq_true, Number.le_iff, Number.Below]
  simp [hx, hy]

theorem Number.exists_value?_int (k : Int) : ∃ x, (Number.int k).value? = some x := ⟨_, value?_int k⟩

theorem Value.AllFinite.named? (hf : Value.AllFinite (.object fields)) {keyword : String} {v : Value}
    (h : fields.named? keyword = some v) : v.AllFinite :=
  Value.allFinite_object.1 hf _ (Fields.mem_of_named? h)

theorem Fields.value?_of_named? (hf : Value.NaNFree (.object fields)) {keyword : String}
    {m : Number} (h : fields.named? keyword = some (.number m)) : ∃ x, m.value? = some x :=
  (Value.naNFree_object.1 hf _ (Fields.mem_of_named? h)).value?

section
variable (hf : Value.NaNFree (.object fields)) {n : Number} (hn : ∃ x, n.value? = some x)
  {keyword : String}
include hf hn

theorem forall_lt_limit_iff :
    (∀ m, fields.named? keyword = some (.number m) → n.lt m = false) ↔
      ∀ m, fields.named? keyword = some (.number m) → m.AtMost n :=
  forall₂_congr fun _ hm => Number.lt_eq_false_iff hn (Fields.value?_of_named? hf hm)

theorem forall_limit_lt_iff :
    (∀ m, fields.named? keyword = some (.number m) → m.lt n = false) ↔
      ∀ m, fields.named? keyword = some (.number m) → n.AtMost m :=
  forall₂_congr fun _ hm => Number.lt_eq_false_iff (Fields.value?_of_named? hf hm) hn

theorem forall_le_limit_iff :
    (∀ m, fields.named? keyword = some (.number m) → n.le m = false) ↔
      ∀ m, fields.named? keyword = some (.number m) → m.Below n :=
  forall₂_congr fun _ hm => Number.le_eq_false_iff hn (Fields.value?_of_named? hf hm)

theorem forall_limit_le_iff :
    (∀ m, fields.named? keyword = some (.number m) → m.le n = false) ↔
      ∀ m, fields.named? keyword = some (.number m) → n.Below m :=
  forall₂_congr fun _ hm => Number.le_eq_false_iff (Fields.value?_of_named? hf hm) hn

end

/-- The size rule of a keyword is kept. -/
theorem sizeFindings_given_iff {keyword : String} {violates : Number → Bool} {f : Value → Finding}
    (hb : ∀ b, fields.named? keyword = some b → ∃ m, b = .number m) :
    sizeFindings (fields.given? keyword) violates f = .ok [] ↔
      ∀ m, fields.named? keyword = some (.number m) → violates m = false := by
  cases h : fields.named? keyword with
  | none => simp [Fields.given?, h, sizeFindings]
  | some b =>
    obtain ⟨m, rfl⟩ := hb b h
    simp [Fields.given?, h, sizeFindings, bound?, findingIf_eq_nil_iff]

theorem isSome_bound?_given {keyword : String}
    (hb : ∀ b, fields.named? keyword = some b → ∃ m, b = .number m) :
    ∀ b ∈ fields.given? keyword, (bound? b).isSome := by
  intro b h
  unfold Fields.given? at h
  split at h
  next => cases h
  next => obtain ⟨m, rfl⟩ := hb b h; rfl

theorem numeric?_eq_some_iff {keyword : String} {m : Number} :
    fields.numeric? keyword = some m ↔ fields.named? keyword = some (.number m) := by
  simp [Fields.numeric?, Option.bind_eq_some_iff, number?_eq_some_iff]

end

/-! ## Patterns -/

/-- A pattern that can be read, and over which the pass that anchors it stays in step. -/
def Pattern.Anchorable [CharacterNames] (source : String) : Prop :=
  (Pattern.read source.toList).isOk ∧ Pattern.StaysInStep source.toList

instance [CharacterNames] (source : String) : Decidable (Pattern.Anchorable source) := by
  unfold Pattern.Anchorable; infer_instance

/-- What compiling the `pattern` of a node gives searches for the pattern. -/
theorem search_compilePattern_iff [CharacterNames] {fields : Fields}
    (hb : ∀ b, fields.named? "pattern" = some b → ∃ p, b = .text p ∧ Pattern.Anchorable p) {p : String}
    {pattern : Option Pattern} (h : compilePattern (fields.named "pattern") p = .ok pattern)
    (text : String) : (∀ q, pattern = some q → q.search text) ↔
      ∀ source, fields.named? "pattern" = some (.text source) → Pattern.Finds source text := by
  cases hp : fields.named? "pattern" with
  | none =>
    rw [Fields.named, hp] at h
    cases h; simp
  | some b =>
    obtain ⟨source, rfl, hread, hstep⟩ := hb b hp
    rw [Fields.named, hp, Option.getD_some] at h
    cases hsource : Pattern.read source.toList with
    | error f => rw [hsource] at hread; cases hread
    | ok x =>
      obtain ⟨e, flags⟩ := x
      obtain ⟨_, hpattern, hsearch⟩ := exists_compilePattern hsource hstep p
      cases h.symm.trans hpattern
      have hfinds : Pattern.Finds source text ↔ Pattern.searchFrom flags e.strict [] 0 text.toList := by
        simp [Pattern.Finds, hsource]
      have hmisses := not_congr (hsearch text)
      simp only [not_exists, not_and, not_not, Bool.not_eq_false] at hmisses
      simp only [hmisses, Option.some.injEq, Value.text, Value.scalar.injEq, Scalar.text.injEq,
        forall_eq', hfinds]

/-! ## Single types -/

section
variable {fields : Fields} {p : String} {A : Value → Value → Prop}

theorem decides_text [CharacterNames] (hf : Value.AllFinite (.object fields))
    (hw : fields.WellTyped Pattern.Anchorable)
    {V : Validator} (hV : compileText fields p = .ok V) :
    V.Decides fun v => v.HasType "string" ∧ AdmitsByType A fields v := by
  obtain ⟨pattern, hpattern, hV⟩ := bind_eq_ok_iff.1 hV
  cases hV
  have hmin := hw.numbers "minLength" (by simp)
  have hmax := hw.numbers "maxLength" (by simp)
  refine ⟨throughout_iff.2 ⟨fun b hb => ?_, by simp [children]⟩, fun v _ => ?_⟩
  · simp only [sizeBounds, List.mem_append, Option.mem_toList] at hb
    exact hb.elim (isSome_bound?_given hmin b) (isSome_bound?_given hmax b)
  · have hfindings (s : String) : TextRules.findings
        { minLength := fields.given? "minLength", maxLength := fields.given? "maxLength",
          pattern := pattern, patternSource := fields.given? "pattern",
          dateTime := fields.named? "format" == some (.text "date-time") } s = .ok [] ↔
        AdmitsText fields s := by
      have hlength := Number.exists_value?_int s.length
      rw [TextRules.findings_eq_ok_nil_iff, sizeFindings_given_iff hmin, sizeFindings_given_iff hmax,
        forall_lt_limit_iff hf.naNFree hlength, forall_limit_lt_iff hf.naNFree hlength,
        search_compilePattern_iff hw.pattern hpattern, beq_iff_eq, Timestamp.isDateTime_iff]
      constructor
      · rintro ⟨h₁, h₂, h₃, h₄⟩; exact ⟨h₁, h₂, h₃, h₄⟩
      · rintro ⟨h₁, h₂, h₃, h₄⟩; exact ⟨h₁, h₂, h₃, h₄⟩
    constructor
    · rintro ⟨o, h⟩
      obtain ⟨s, rfl, hs, -⟩ := accepts_text_iff.1 h
      exact ⟨⟨s, rfl⟩, admitsByType_text_iff.2 ((hfindings s).1 hs)⟩
    · rintro ⟨⟨s, rfl⟩, hs⟩
      have hs := (hfindings s).2 (admitsByType_text_iff.1 hs)
      exact ⟨_, accepts_text_iff.2 ⟨s, rfl, hs, rfl⟩⟩

theorem isFiniteNumber_eq_true {n : Number} (h : Value.IsInstance (.number n)) :
    isFiniteNumber (.number n) = .ok true := by
  have hfinite := h.2 _ (Value.self_mem_parts _)
  have hrange := h.3 _ (Value.self_mem_parts _)
  cases n with
  | int k => simpa [isFiniteNumber, Value.isInRangeNode] using hrange
  | double d =>
    cases d with
    | finite => rfl
    | infinite => cases hfinite
    | nan => cases hfinite

theorem decides_number [CharacterNames] (hf : Value.NaNFree (.object fields)) (integer : Bool) :
    (compileNumber fields p integer).Decides fun v =>
      v.HasType (if integer then "integer" else "number") ∧ AdmitsByType A fields v := by
  refine ⟨numericSizes_of_leaf rfl rfl, fun v hv => ?_⟩
  have hfindings {n : Number} (hn : Value.IsInstance (.number n)) : NumberRules.findings
      { integer := integer, minimum := fields.numeric? "minimum",
        exclusiveMinimum := fields.numeric? "exclusiveMinimum", maximum := fields.numeric? "maximum",
        exclusiveMaximum := fields.numeric? "exclusiveMaximum" } n = [] ↔
      (integer → n.isWhole) ∧ AdmitsNumber fields n := by
    have hvalue := hn.2.value?
    rw [NumberRules.findings_eq_nil_iff]
    simp only [numeric?_eq_some_iff]
    rw [forall_lt_limit_iff hf hvalue, forall_le_limit_iff hf hvalue, forall_limit_lt_iff hf hvalue,
      forall_limit_le_iff hf hvalue]
    refine and_congr_right fun _ => ?_
    constructor
    · rintro ⟨h₁, h₂, h₃, h₄⟩; exact ⟨h₁, h₂, h₃, h₄⟩
    · rintro ⟨h₁, h₂, h₃, h₄⟩; exact ⟨h₁, h₂, h₃, h₄⟩
  have htype (n : Number) : Value.HasType (.number n) (if integer then "integer" else "number") ↔
      (integer → n.isWhole) := by
    cases integer <;> simp [Value.HasType, Number.isWhole_iff]
  constructor
  · rintro ⟨o, h⟩
    obtain ⟨n, rfl, -, hn, -⟩ := accepts_number_iff.1 h
    obtain ⟨hwhole, hadmits⟩ := (hfindings hv).1 hn
    exact ⟨(htype n).2 hwhole, admitsByType_number_iff.2 hadmits⟩
  · rintro ⟨hwhole, hadmits⟩
    obtain ⟨n, rfl⟩ : ∃ n, v = .number n := by
      cases integer with
      | true => obtain ⟨n, rfl, -⟩ := hwhole; exact ⟨n, rfl⟩
      | false => exact hwhole
    have hn := (hfindings hv).2 ⟨(htype n).1 hwhole, admitsByType_number_iff.1 hadmits⟩
    exact ⟨_, accepts_number_iff.2 ⟨n, rfl, isFiniteNumber_eq_true hv, hn, rfl⟩⟩

theorem kind_eq_iff {v : Value} {name : String} (h : name = "boolean" ∨ name = "null") :
    v.kind = name ↔ v.HasType name := by
  rcases h with rfl | rfl <;> unfold Value.kind <;> split <;> simp [Value.HasType]

theorem decides_kind [CharacterNames] {name : String} (h : name = "boolean" ∨ name = "null") :
    (Validator.kind p name).Decides fun v => v.HasType name ∧ AdmitsByType A fields v := by
  refine ⟨numericSizes_of_leaf rfl rfl, fun v _ => ?_⟩
  have hrules : v.HasType name → AdmitsByType A fields v := by
    rcases h with rfl | rfl
    · rintro ⟨b, rfl⟩; exact admitsByType_bool b
    · rintro rfl; exact admitsByType_null
  simp [accepts_kind_iff, kind_eq_iff h, and_iff_left_of_imp hrules]

theorem decides_list [CharacterNames] (hf : Value.AllFinite (.object fields))
    (hw : fields.WellTyped Pattern.Anchorable)
    {node : Value} (hnode : fields.named? "items" = some node) {items : Validator}
    (hi : items.Decides (A node)) :
    (Validator.list p items (listRules fields)).Decides fun v =>
      v.HasType "array" ∧ AdmitsByType A fields v := by
  have hmin := hw.numbers "minItems" (by simp)
  have hmax := hw.numbers "maxItems" (by simp)
  refine ⟨throughout_iff.2 ⟨fun b hb => ?_, ?_⟩, fun v hv => ?_⟩
  · simp only [sizeBounds, List.mem_append, Option.mem_toList] at hb
    exact hb.elim (isSome_bound?_given hmin b) (isSome_bound?_given hmax b)
  · intro c hc; obtain rfl := List.mem_singleton.1 hc; exact hi.1
  · have hrules {xs : List Value} (hxs : Value.IsInstance (.list xs)) :
        (listRules fields).findings xs.length = .ok [] ∧
          ((listRules fields).uniqueItems → repeats xs = []) ↔ AdmitsSize fields xs := by
      have hlength := Number.exists_value?_int xs.length
      have hsame : xs.Pairwise (fun x y => ¬ x.sameData y) ↔
          xs.Pairwise fun x y => ¬ x.SameJson y := by
        refine List.Pairwise.iff_of_mem fun {x y} hx hy => not_congr ?_
        rw [Value.sameData_iff]
        exact Value.canonical_eq_iff (hxs.item hx).1 (hxs.item hy).1 (hxs.item hx).2.naNFree
      rw [ListRules.findings_eq_ok_nil_iff, listRules, sizeFindings_given_iff hmin,
        sizeFindings_given_iff hmax, forall_lt_limit_iff hf.naNFree hlength,
        forall_limit_lt_iff hf.naNFree hlength, repeats_eq_nil_iff, beq_iff_eq, hsame]
      constructor
      · rintro ⟨⟨h₁, h₂⟩, h₃⟩; exact ⟨h₁, h₂, h₃⟩
      · rintro ⟨h₁, h₂, h₃⟩; exact ⟨⟨h₁, h₂⟩, h₃⟩
    constructor
    · rintro ⟨o, h⟩
      obtain ⟨xs, ys, hxs, hacc, hown, hrep, -⟩ := accepts_list_iff.1 h
      obtain rfl := (elements?_eq_some_iff hv.1).1 hxs
      refine ⟨⟨xs, rfl⟩, admitsByType_list_iff.2 ⟨(hrules hv).1 ⟨hown, hrep⟩, fun n hn x hx => ?_⟩⟩
      obtain rfl := Option.some.inj (hnode.symm.trans hn)
      obtain ⟨y, -, hy⟩ := forall₂_left hacc hx
      exact (hi.2 x (hv.item hx)).1 ⟨y, hy⟩
    · rintro ⟨⟨xs, rfl⟩, h⟩
      obtain ⟨hsize, hall⟩ := admitsByType_list_iff.1 h
      obtain ⟨ys, hys⟩ := exists_forall₂ fun x hx => (hi.2 x (hv.item hx)).2 (hall node hnode x hx)
      obtain ⟨hown, hrep⟩ := (hrules hv).2 hsize
      exact ⟨_, accepts_list_iff.2 ⟨xs, ys, rfl, hys, hown, hrep, rfl⟩⟩

end

/-! ## Objects -/

section
variable {patterns : String → Prop} {fields : Fields} {p : String} {A : Value → Value → Prop}

/-- The declared properties of a node are those that it lists. -/
theorem Fields.WellTyped.mem_declared_iff (hw : fields.WellTyped patterns)
    {declared : Fields}
    (hd : fields.declared? = some declared) {f : Scalar × Value} :
    f ∈ declared ↔ ∃ ps, fields.named? "properties" = some (.object ps) ∧ f ∈ ps := by
  unfold Fields.declared? at hd
  cases h : fields.named? "properties" with
  | none => rw [h] at hd; cases hd; simp
  | some b =>
    obtain ⟨ps, rfl⟩ := hw.properties b h
    rw [h] at hd; cases hd; simp

theorem Fields.WellTyped.mem_keys_declared_iff (hw : fields.WellTyped patterns)
    {declared : Fields}
    (hd : fields.declared? = some declared) {k : Scalar} :
    k ∈ declared.keys ↔
      ∃ ps : Fields, fields.named? "properties" = some (.object ps) ∧ k ∈ ps.keys := by
  simp only [Fields.keys, List.mem_map, hw.mem_declared_iff hd]
  constructor
  · rintro ⟨f, ⟨ps, hprops, hf⟩, rfl⟩; exact ⟨ps, hprops, f, hf, rfl⟩
  · rintro ⟨ps, hprops, f, hf, rfl⟩; exact ⟨f, ⟨ps, hprops, hf⟩, rfl⟩

/-- The required names of a node are those that it lists. -/
theorem Fields.WellTyped.mem_required_iff (hw : fields.WellTyped patterns)
    {required : List Value}
    (hr : nameSet (fields.named "required") = .ok required) {name : String} :
    .text name ∈ required ↔
      ∃ names, fields.named? "required" = some (.list names) ∧ .text name ∈ names := by
  cases h : fields.named? "required" with
  | none => rw [Fields.named, h] at hr; cases hr; simp
  | some b =>
    obtain ⟨names, rfl, -⟩ := hw.required b h
    rw [Fields.named, h] at hr
    simp [mem_nameSet_iff hr]

/-- A strict node is one that forbids further properties, if the default is not strict. -/
theorem closednessOf_eq_strict_iff {mode : Closedness} (hm : mode ≠ .strict) :
    closednessOf mode fields = .strict ↔
      fields.named? "additionalProperties" = some (.bool false) := by
  unfold closednessOf
  split <;> simp_all

section
variable (hw : fields.WellTyped patterns) {declared : Fields} (hd : fields.declared? = some declared)
  {properties : List (String × Validator)}
  (hnames : properties.map (fun q => Scalar.text q.1) = declared.keys) {fs : Fields}
include hw hd hnames

/-- No undeclared field is there, where the node forbids them. -/
theorem undeclared_eq_nil_iff {mode : Closedness} (hm : mode ≠ .strict) :
    (closednessOf mode fields = .strict → undeclared properties fs = []) ↔
      (fields.named? "additionalProperties" = some (.bool false) → ∀ k ∈ fs.keys,
        ∃ ps : Fields, fields.named? "properties" = some (.object ps) ∧ k ∈ ps.keys) := by
  rw [closednessOf_eq_strict_iff hm, List.eq_nil_iff_forall_not_mem]
  simp only [← hw.mem_keys_declared_iff hd, ← hnames, mem_undeclared, List.mem_map]
  simp only [Fields.keys, List.mem_map]
  refine imp_congr_right fun _ => ?_
  constructor
  · rintro h _ ⟨f, hf, rfl⟩
    by_contra hq
    exact h f ⟨hf, fun q hmem heq => hq ⟨q, hmem, heq.symm⟩⟩
  · rintro h f ⟨hf, hq⟩
    obtain ⟨q, hmem, heq⟩ := h f.1 ⟨f, hf, rfl⟩
    exact hq q hmem heq.symm

/-- No required property is missing. -/
theorem required_iff {required : List Value}
    (hr : nameSet (fields.named "required") = .ok required) :
    (∀ q ∈ properties, fs.named? q.1 = none → .text q.1 ∉ required) ↔
      ∀ names name, fields.named? "required" = some (.list names) → .text name ∈ names →
        fs.has name := by
  constructor
  · intro h names name hn hmem
    obtain ⟨listed, heq, hdecl⟩ := hw.required _ hn
    cases heq
    obtain ⟨name, hname, ⟨⟩⟩ := List.mem_map.1 hmem
    have hkey := (hw.mem_keys_declared_iff hd).2 (hdecl name hname)
    rw [← hnames] at hkey
    obtain ⟨q, hq, ⟨⟩⟩ := List.mem_map.1 hkey
    by_contra hmiss
    exact h q hq (by simpa [Fields.has] using hmiss) ((hw.mem_required_iff hr).2 ⟨_, hn, hmem⟩)
  · intro h q hq hnone hreq
    obtain ⟨names, hn, hmem⟩ := (hw.mem_required_iff hr).1 hreq
    have := h names q.1 hn hmem
    simp [Fields.has, hnone] at this

end

theorem decides_object [CharacterNames] {mode : Closedness} (hm : mode ≠ .strict)
    (hw : fields.WellTyped patterns)
    {declared : Fields} (hd : fields.declared? = some declared)
    {properties : List (String × Validator)}
    (hp : AtNames (fun n _ W => W.Decides (A n)) p declared properties) {required : List Value}
    (hr : nameSet (fields.named "required") = .ok required) :
    (Validator.object p properties required (closednessOf mode fields)).Decides fun v =>
      v.HasType "object" ∧ AdmitsByType A fields v := by
  refine ⟨throughout_iff.2 ⟨by simp [sizeBounds], fun c hc => ?_⟩, fun v hv => ?_⟩
  · obtain ⟨q, hq, rfl⟩ := List.mem_map.1 hc
    exact hp.forall_mem (fun _ _ _ _ hW => hW.1) q hq
  · have hparts {fs : Fields} (hfs : Value.IsInstance (.object fs)) :
        (∀ q ∈ properties, ∀ x, fs.named? q.1 = some x → ∃ y, q.2.Accepts x y) ↔
          ∀ ps, fields.named? "properties" = some (.object ps) → ∀ f ∈ ps, ∀ name x,
            f.1 = .text name → fs.named? name = some x → A f.2 x := by
      have hx {name : String} {x : Value} (hx : fs.named? name = some x) : x.IsInstance :=
        hfs.field (Fields.mem_of_named? hx)
      constructor
      · rintro h ps hps f hf name x heq hname
        obtain ⟨q, hq, heq', hdec⟩ := forall₂_left hp ((hw.mem_declared_iff hd).2 ⟨ps, hps, hf⟩)
        obtain rfl : name = q.1 := Scalar.text.inj (heq.symm.trans heq')
        exact (hdec.2 x (hx hname)).1 (h q hq x hname)
      · intro h
        refine forall₂_right hp fun f hf q hq x hname => ?_
        obtain ⟨ps, hps, hf⟩ := (hw.mem_declared_iff hd).1 hf
        exact (hq.2.2 x (hx hname)).2 (h ps hps f hf q.1 x hq.1 hname)
    have hnames := hp.names_eq
    constructor
    · rintro ⟨o, h⟩
      obtain ⟨fs, out, rfl, hacc, hstrict, -⟩ := accepts_object_iff.1 h
      obtain ⟨hmiss, hall⟩ := exists_acceptsProperties_iff.1 ⟨out, hacc⟩
      exact ⟨⟨fs, rfl⟩, admitsByType_object_iff.2 ⟨⟨(required_iff hw hd hnames hr).1 hmiss,
        (undeclared_eq_nil_iff hw hd hnames hm).1 hstrict⟩, (hparts hv).1 hall⟩⟩
    · rintro ⟨⟨fs, rfl⟩, h⟩
      obtain ⟨hkeys, hall⟩ := admitsByType_object_iff.1 h
      obtain ⟨out, hout⟩ := exists_acceptsProperties_iff.2
        ⟨(required_iff hw hd hnames hr).2 hkeys.required, (hparts hv).2 hall⟩
      exact ⟨_, accepts_object_iff.2 ⟨fs, out, rfl, hout,
        (undeclared_eq_nil_iff hw hd hnames hm).2 hkeys.additionalProperties, rfl⟩⟩

end

/-! ## Nodes under the name of a type -/

section
variable {fields : Fields} {mode : Closedness} {A : Value → Value → Prop}

/-- A node read under the name of a type decides which values of this type it
    admits, if its parts do. -/
theorem decides_name [CharacterNames] (hm : mode ≠ .strict) (hf : Value.AllFinite (.object fields))
    (hw : fields.WellTyped Pattern.Anchorable)
    (hi : ∀ n, fields.named? "items" = some n →
      ∀ q W, compileNode mode n q = .ok W → W.Decides (A n))
    (hp : ∀ ps, fields.named? "properties" = some (.object ps) → ∀ f ∈ ps,
      ∀ q W, compileNode mode f.2 q = .ok W → W.Decides (A f.2))
    {name p : String} {V : Validator} (hV : compileTyped mode fields (.text name) p = .ok V) :
    V.Decides fun v => v.HasType name ∧ AdmitsByType A fields v := by
  have hV' := hV
  rw [compileTyped.eq_def] at hV
  split at hV
  next heq => cases heq
  next heq => cases heq
  next heq => cases heq; exact decides_text hf hw hV
  next heq => cases heq; cases hV; exact decides_number hf.naNFree false
  next heq => cases heq; cases hV; exact decides_number hf.naNFree true
  next heq => cases heq; cases hV; exact decides_kind (Or.inl rfl)
  next heq => cases heq; cases hV; exact decides_kind (Or.inr rfl)
  next heq =>
    cases heq
    obtain ⟨node, items, hn, -, hitems, rfl⟩ := compileTyped_array_eq_ok_iff.1 hV'
    exact decides_list hf hw hn (hi node hn _ items hitems)
  next heq =>
    cases heq
    obtain ⟨declared, properties, required, hd, hps, hr, rfl⟩ := compileTyped_object_eq_ok_iff.1 hV'
    refine decides_object hm hw hd (hps.imp fun f hf q W hW => ?_) hr
    obtain ⟨ps, hprops, hf⟩ := (hw.mem_declared_iff hd).1 hf
    exact hp ps hprops f hf q W hW
  next => cases hV

end

/-! ## Unions and intersections -/

section
variable {A : Value → Value → Prop} {p q : String} {i : Nat} {nodes : List Value}
  {Vs : List Validator}

theorem decides_unionOf (h : AtPlaces (fun n _ W => W.Decides (A n)) p i nodes Vs) {V : Validator}
    (hV : unionOf q Vs = .ok V) : V.Decides fun v => ∃ n ∈ nodes, A n v := by
  have hsizes : ∀ W ∈ Vs, W.NumericSizes := h.forall_mem fun _ _ _ _ hW => hW.1
  refine ⟨throughout_unionOf hV hsizes (by simp [sizeBounds]), fun v hv => ?_⟩
  constructor
  · rintro ⟨o, ho⟩
    obtain ⟨W, hW, ho⟩ := exists_accepts_of_unionOf hV ho
    have hfrom := h.forall_mem (Q := fun W => (∃ o, W.Accepts v o) → ∃ n ∈ nodes, A n v)
      fun n hn _ W hW ho => ⟨n, hn, (hW.2 v hv).1 ho⟩
    exact hfrom W hW ⟨o, ho⟩
  · rintro ⟨n, hn, ha⟩
    obtain ⟨_, W, hW, hdec⟩ := h.exists_of_mem hn
    obtain ⟨o, ho⟩ := (hdec.2 v hv).2 ha
    exact exists_accepts_unionOf hV (fun U hU => (hsizes U hU).settles hv.3) hW ho

theorem decides_intersectionOf (h : AtPlaces (fun n _ W => W.Decides (A n)) p i nodes Vs) :
    (intersectionOf q Vs).Decides fun v => ∀ n ∈ nodes, A n v := by
  have hsizes : ∀ W ∈ Vs, W.NumericSizes := h.forall_mem fun _ _ _ _ hW => hW.1
  refine ⟨throughout_intersectionOf hsizes (by simp [sizeBounds]) (by simp [sizeBounds]), fun v hv => ?_⟩
  rw [exists_accepts_intersectionOf_iff]
  constructor
  · intro hall n hn
    obtain ⟨_, W, hW, hdec⟩ := h.exists_of_mem hn
    exact (hdec.2 v hv).1 (hall W hW)
  · intro hall
    exact h.forall_mem fun n hn _ W hW => (hW.2 v hv).2 (hall n hn)

end

/-! ## Expected values -/

section
variable {p : String}

theorem decides_literal {c : Value} (hc : c.IsJson) :
    (Validator.literal p c).Decides fun v => v.SameJson c := by
  refine ⟨numericSizes_of_leaf rfl rfl, fun v hv => ?_⟩
  simp [accepts_literal_iff, Value.canonical_eq_iff hv.1 hc hv.2.naNFree]

theorem decides_options (texts : List String) :
    (Validator.options p texts).Decides fun v => ∃ c ∈ texts.map Value.text, v.SameJson c := by
  refine ⟨numericSizes_of_leaf rfl rfl, fun v _ => ?_⟩
  simp [accepts_options_iff, Value.sameJson_text_iff]

theorem decides_enum {cs : List Value} (hj : ∀ c ∈ cs, c.IsJson) {V : Validator}
    (hV : compileEnum (.list cs) p = .ok V) : V.Decides fun v => ∃ c ∈ cs, v.SameJson c := by
  obtain ⟨_, ⟨⟩, -, ⟨c, rfl, rfl⟩ | ⟨texts, rfl, rfl⟩ | ⟨hlen, rfl⟩⟩ := compileEnum_eq_ok hV
  · exact (decides_literal (hj c (by simp))).congr fun v _ => by simp
  · exact decides_options texts
  · have hliterals : AtPlaces (fun c _ W => W.Decides fun v => v.SameJson c) p 0 cs
        (cs.zipIdx.map fun e => .literal (p ++ "/enum/" ++ toString e.2) e.1) := by
      refine List.forall₂_map_right_iff.2 (List.forall₂_same.2 fun e he => ?_)
      exact decides_literal (hj e.1 (List.fst_mem_of_mem_zipIdx he))
    exact decides_unionOf hliterals (unionOf_eq_ok_iff.2 (Or.inr ⟨by simpa using hlen, rfl⟩))

end

/-! ## Supported schemas -/

section
variable {fields : Fields} {c : Value}

theorem Fields.UsesOnly.reading_eq_literal (ho : fields.UsesOnly ["const"])
    (hc : fields.named? "const" = some c) : fields.reading = .literal c := by
  simp (disch := decide) [Fields.reading, Fields.has, ho.named?_eq_none, hc]

theorem Fields.UsesOnly.reading_eq_choices (ho : fields.UsesOnly ["enum"])
    (hc : fields.named? "enum" = some c) : fields.reading = .choices c := by
  simp (disch := decide) [Fields.reading, Fields.has, ho.named?_eq_none, hc]

theorem Fields.UsesOnly.reading_eq_union (ho : fields.UsesOnly ["anyOf"])
    (hc : fields.named? "anyOf" = some c) : fields.reading = .union "anyOf" c := by
  simp (disch := decide) [Fields.reading, Fields.has, ho.named?_eq_none, hc]

theorem Fields.UsesOnly.reading_eq_all (ho : fields.UsesOnly ["allOf"])
    (hc : fields.named? "allOf" = some c) : fields.reading = .all c := by
  simp (disch := decide) [Fields.reading, Fields.has, ho.named?_eq_none, hc]

theorem Fields.UsesOnly.reading_eq_typed (ho : fields.UsesOnly ("type" :: typeKeywords))
    (hc : fields.named? "type" = some c) : fields.reading = .typed c := by
  simp (disch := decide) [Fields.reading, Fields.has, ho.named?_eq_none, hc]

theorem Fields.UsesOnly.reading_eq_free (ho : fields.UsesOnly []) : fields.reading = .free := by
  simp (disch := decide) [Fields.reading, Fields.has, ho.named?_eq_none]

end

/-- A typed node decides what it admits, if its parts do. -/
theorem decides_typed [CharacterNames] {mode : Closedness} (hm : mode ≠ .strict) {fields : Fields} {type : Value}
    (hf : Value.AllFinite (.object fields)) (hw : fields.WellTyped Pattern.Anchorable)
    (hn : (∃ name, type = .text name) ∨
      ∃ names : List String, names ≠ [] ∧ type = .list (names.map .text))
    {A : Value → Value → Prop}
    (hi : ∀ n, fields.named? "items" = some n →
      ∀ q W, compileNode mode n q = .ok W → W.Decides (A n))
    (hp : ∀ ps, fields.named? "properties" = some (.object ps) → ∀ f ∈ ps,
      ∀ q W, compileNode mode f.2 q = .ok W → W.Decides (A f.2))
    {p : String} {V : Validator} (hV : compileTyped mode fields type p = .ok V) :
    V.Decides fun v => type.Permits v ∧ AdmitsByType A fields v := by
  rcases hn with ⟨name, rfl⟩ | ⟨names, -, rfl⟩
  · exact decides_name hm hf hw hi hp hV
  · obtain ⟨Vs, hVs, hV⟩ := compileTyped_list_eq_ok_iff.1 hV
    have hnames : AtPlaces (fun t _ W => W.Decides fun v =>
        t.Permits v ∧ AdmitsByType A fields v) (p ++ "/type") 0 (names.map .text) Vs :=
      hVs.imp fun t ht q W hW => by
        obtain ⟨name, -, rfl⟩ := List.mem_map.1 ht
        exact decides_name hm hf hw hi hp hW
    refine (decides_unionOf hnames hV).congr fun v _ => ?_
    simp only [Value.Permits, List.mem_map]
    constructor
    · rintro ⟨_, ⟨name, hname, rfl⟩, ht, ha⟩
      exact ⟨⟨name, ⟨name, hname, rfl⟩, ht⟩, ha⟩
    · rintro ⟨⟨name, hname, ht⟩, ha⟩
      exact ⟨_, hname, ht, ha⟩

/-- Supported schemas compile to trees that decide what the schemas admit. -/
theorem compile_decides [CharacterNames] {mode : Closedness} (hm : mode ≠ .strict) {s : Value}
    (hs : Supported Pattern.Anchorable s)
    (hj : s.IsJson) (hf : s.AllFinite) {p : String} {V : Validator}
    (hV : compileNode mode s p = .ok V) : V.Decides (Admits s) := by
  induction hs generalizing p V with
  | bool b =>
    rw [compileNode.eq_def] at hV
    cases b with
    | true =>
      cases hV
      exact ⟨numericSizes_of_leaf rfl rfl, fun v _ => by simp [accepts_any_iff, Admits]⟩
    | false =>
      cases hV
      exact ⟨numericSizes_of_leaf rfl rfl, fun v _ => by simp [not_accepts_never, Admits]⟩
  | const ho hc =>
    rw [compileNode, compileFields_eq, ho.reading_eq_literal hc] at hV
    cases hV
    exact (decides_literal (hj.named? hc)).congr fun v _ => (ho.admits_const_iff hc).symm
  | enum ho hc hne =>
    rw [compileNode, compileFields_eq, ho.reading_eq_choices hc] at hV
    exact (decides_enum (Value.isJson_list.1 (hj.named? hc)) hV).congr fun v _ =>
      (ho.admits_enum_iff hc).symm
  | anyOf ho hn hne h ih =>
    rw [compileNode, compileFields_eq, ho.reading_eq_union hn] at hV
    obtain ⟨_, Vs, ⟨⟩, hVs, hV⟩ := compileUnion_eq_ok_iff.1 hV
    have hbranches := hVs.imp fun n hmem q W hW =>
      ih n hmem (Value.isJson_list.1 (hj.named? hn) n hmem)
        (Value.allFinite_list.1 (hf.named? hn) n hmem) hW
    exact (decides_unionOf hbranches hV).congr fun v _ => (ho.admits_anyOf_iff hn).symm
  | allOf ho hn h ih =>
    rw [compileNode, compileFields_eq, ho.reading_eq_all hn] at hV
    simp only [bind_eq_ok_iff, compileBranches_eq_ok_iff, pure, Except.pure, Except.ok.injEq] at hV
    obtain ⟨Vs, hVs, rfl⟩ := hV
    have hbranches := hVs.imp fun n hmem q W hW =>
      ih n hmem (Value.isJson_list.1 (hj.named? hn) n hmem)
        (Value.allFinite_list.1 (hf.named? hn) n hmem) hW
    exact (decides_intersectionOf hbranches).congr fun v _ => (ho.admits_allOf_iff hn).symm
  | untyped ho =>
    rw [compileNode, compileFields_eq, ho.reading_eq_free] at hV
    cases hV
    exact ⟨numericSizes_of_leaf rfl rfl, fun v _ => by simp [accepts_any_iff, ho.admits_untyped v]⟩
  | typed ho ht hn hw hi hp ihi ihp =>
    rw [compileNode, compileFields_eq, ho.reading_eq_typed ht] at hV
    refine (decides_typed hm hf hw hn (fun n hitems q W hW => ?_) (fun ps hprops f hmem q W hW => ?_)
      hV).congr fun v _ => (ho.admits_typed_iff ht).symm
    · exact ihi n hitems (hj.named? hitems) (hf.named? hitems) hW
    · exact ihp ps hprops f hmem ((Value.isJson_object.1 (hj.named? hprops)).2.2 f hmem)
        (Value.allFinite_object.1 (hf.named? hprops) f hmem) hW

/-- **Validity is acceptance.** Run on an instance, what a supported schema is
    compiled to comes to a verdict, and accepts if the schema admits the
    instance. The pass stays in step over its patterns: over `(?#[)a$` it does not,
    and what that is compiled to finds `a` before a last line end. That messages cannot
    show an integer with more than `digitLimit` digits, in an `enum` say, is left out. -/
theorem compile_run_iff_admits [CharacterNames] {s : Value} {mode : Closedness} {p : String} {V : Validator}
    (hs : Supported Pattern.Anchorable s) (hj : s.IsJson) (hf : s.AllFinite) (hm : mode ≠ .strict)
    (hV : compile s mode p = .ok V) {v : Value} (hv : v.IsJson) (hvf : v.AllFinite)
    (hvr : v.InRange) :
    ∃ verdict, V.run v = .ok verdict ∧ ((∃ o, verdict = .accepted o) ↔ Admits s v) := by
  obtain ⟨hsizes, hdec⟩ := compile_decides hm hs hj hf hV
  obtain ⟨verdict, hrun⟩ := settles_iff_run.1 (hsizes.settles hvr)
  refine ⟨verdict, hrun, ?_⟩
  rw [← hdec v ⟨hv, hvf, hvr⟩]
  simp only [← run_eq_accepted_iff, hrun, Except.ok.injEq]

/-- A record with a label and perhaps a note, which ends in `t`. -/
def labelled : Fields :=
  [(.text "type", .text "object"),
    (.text "properties", .object [(.text "label", .object [(.text "enum", .list [.text "a", .text "b"])]),
      (.text "note", .object [(.text "type", .list [.text "string", .text "null"]),
        (.text "pattern", .text "t$")])]),
    (.text "required", .list [.text "label"])]

theorem supported_labelled : Supported Pattern.Anchorable (.object labelled) := by
  have hw : labelled.WellTyped Pattern.Anchorable := {
    numbers := by simp [labelled, Fields.named?_cons]
    pattern := by simp [labelled, Fields.named?_cons]
    format := by simp [labelled, Fields.named?_cons]
    truthValues := by simp [labelled, Fields.named?_cons]
    properties := by simp [labelled, Fields.named?_cons]
    required := by
      rintro _ ⟨⟩
      exact ⟨["label"], rfl, by simp [labelled, Fields.named?_cons, Fields.keys]⟩ }
  refine .typed (by decide) (by rfl) (Or.inl ⟨"object", rfl⟩) hw (by rintro _ ⟨⟩) ?_
  rintro _ ⟨⟩ f hf
  simp only [List.mem_cons, List.not_mem_nil, or_false] at hf
  rcases hf with rfl | rfl
  · exact .enum (by decide) (by rfl) (by decide)
  · refine .typed (by decide) (by rfl) (Or.inr ⟨["string", "null"], by decide, rfl⟩) ?_
      (by rintro _ ⟨⟩) (by rintro _ ⟨⟩)
    have hpattern : Pattern.Anchorable "t$" := by decide +kernel
    constructor <;> simp [Fields.named?_cons, hpattern]

theorem compile_run_iff_admits_labelled :
    Admits (.object labelled) (.object [(.text "note", .text "t"), (.text "label", .text "b")]) ∧
      ¬ Admits (.object labelled) (.object [(.text "note", .text "t\n"), (.text "label", .text "b")]) := by
  have hV : ∃ V, compile (.object labelled) .strip "#" = .ok V ∧
      (V.run (.object [(.text "note", .text "t"), (.text "label", .text "b")]) =
        .ok (.accepted (.object [(.text "label", .text "b"), (.text "note", .text "t")]))) ∧
      ∃ issues, V.run (.object [(.text "note", .text "t\n"), (.text "label", .text "b")]) =
        .ok (.rejected issues) := ⟨_, by cbv, by cbv, _, by cbv⟩
  obtain ⟨V, hV, hword, issues, hline⟩ := hV
  constructor
  · obtain ⟨verdict, hverdict, hiff⟩ := compile_run_iff_admits supported_labelled (by decide) (by decide)
      (by decide) hV (v := .object [(.text "note", .text "t"), (.text "label", .text "b")]) (by decide)
      (by decide) (by decide)
    obtain rfl := Except.ok.inj (hword.symm.trans hverdict)
    exact hiff.1 ⟨_, rfl⟩
  · obtain ⟨verdict, hverdict, hiff⟩ := compile_run_iff_admits supported_labelled (by decide) (by decide)
      (by decide) hV (v := .object [(.text "note", .text "t\n"), (.text "label", .text "b")]) (by decide)
      (by decide) (by decide)
    obtain rfl := Except.ok.inj (hline.symm.trans hverdict)
    intro h
    obtain ⟨o, ho⟩ := hiff.2 h
    cases ho

end SchemaGuard
