/-
  SchemaGuard — what schemas mean.

  `Admits s v` says that the schema `s` admits `v`, keyword by keyword and without
  regard to how schemas are compiled: every keyword of a node is a condition of
  its own, and the rules for one type say nothing about values of another type.

  * `Value.HasType`, `Value.Permits`: the types of values;
  * `AdmitsText`, `AdmitsNumber`, `AdmitsSize`, `AdmitsKeys`: the rules for texts,
    numbers, lists and objects;
  * `Supported`: the schemas for which the meaning is complete, that is, which use
    no other constraining keyword.

  A pattern means what its source is read as, with the end of the text for every `$`
  (`Pattern.Finds`).
-/
import SchemaGuard.Compile
import SchemaGuard.Proofs.Pattern.Strict
import SchemaGuard.Proofs.Timestamp.Grammar
import SchemaGuard.Proofs.Value.SameData

namespace SchemaGuard

/-! ## Numbers, texts and types -/

/-- One number is at most another one. -/
def Number.AtMost (a b : Number) : Prop := ∃ x y, a.value? = some x ∧ b.value? = some y ∧ x ≤ y

/-- One number is less than another one. -/
def Number.Below (a b : Number) : Prop := ∃ x y, a.value? = some x ∧ b.value? = some y ∧ x < y

/-- A pattern, in which `$` is the end of the text, matches somewhere in a text. -/
def Pattern.Finds [CharacterNames] (source text : String) : Prop :=
  ∃ e flags, Pattern.read source.toList = .ok (e, flags) ∧
    Pattern.searchFrom flags e.strict [] 0 text.toList

/-- A value is of the type with a name. -/
def Value.HasType (v : Value) (name : String) : Prop :=
  match name with
  | "null" => v = .null
  | "boolean" => ∃ b, v = .bool b
  | "string" => ∃ s, v = .text s
  | "number" => ∃ n, v = .number n
  | "integer" => ∃ n, v = .number n ∧ ∃ k : Int, n.value? = some ((k : ℚ) : WithTop ℚ)
  | "array" => ∃ xs, v = .list xs
  | "object" => ∃ fs, v = .object fs
  | _ => False

/-- A `type` permits a value: it is the name of its type, or a list with that name. -/
def Value.Permits : (type v : Value) → Prop
  | .text name, v => v.HasType name
  | .list names, v => ∃ name, .text name ∈ names ∧ v.HasType name
  | _, _ => False

/-! ## Rules for single types -/

section
variable (fields : Fields)

/-- The rules of a node for texts. -/
structure AdmitsText [CharacterNames] (s : String) : Prop where
  minLength : ∀ m, fields.named? "minLength" = some (.number m) → m.AtMost (.int s.length)
  maxLength : ∀ m, fields.named? "maxLength" = some (.number m) → (Number.int s.length).AtMost m
  pattern : ∀ p, fields.named? "pattern" = some (.text p) → Pattern.Finds p s
  format : fields.named? "format" = some (.text "date-time") → Timestamp.IsWritten s

/-- The rules of a node for numbers. -/
structure AdmitsNumber (n : Number) : Prop where
  minimum : ∀ m, fields.named? "minimum" = some (.number m) → m.AtMost n
  exclusiveMinimum : ∀ m, fields.named? "exclusiveMinimum" = some (.number m) → m.Below n
  maximum : ∀ m, fields.named? "maximum" = some (.number m) → n.AtMost m
  exclusiveMaximum : ∀ m, fields.named? "exclusiveMaximum" = some (.number m) → n.Below m

/-- The rules of a node for lists as a whole. -/
structure AdmitsSize (xs : List Value) : Prop where
  minItems : ∀ m, fields.named? "minItems" = some (.number m) → m.AtMost (.int xs.length)
  maxItems : ∀ m, fields.named? "maxItems" = some (.number m) → (Number.int xs.length).AtMost m
  uniqueItems : fields.named? "uniqueItems" = some (.bool true) →
    xs.Pairwise fun x y => ¬ x.SameJson y

/-- The rules of a node for the keys of objects. -/
structure AdmitsKeys (fs : Fields) : Prop where
  required : ∀ names name, fields.named? "required" = some (.list names) → .text name ∈ names →
    fs.has name
  additionalProperties : fields.named? "additionalProperties" = some (.bool false) →
    ∀ k ∈ fs.keys, ∃ ps : Fields, fields.named? "properties" = some (.object ps) ∧ k ∈ ps.keys

end

/-! ## Schemas -/

/-- A schema admits a value. -/
def Admits [CharacterNames] : (schema v : Value) → Prop
  | .bool b, _ => b
  | .object node, v =>
    let keyword := Fields.named? node
    (∀ c, keyword "const" = some c → v.SameJson c) ∧
    (∀ cs, keyword "enum" = some (.list cs) → ∃ c ∈ cs, v.SameJson c) ∧
    (∀ ns, keyword "anyOf" = some (.list ns) → ∃ n, ∃ _ : n ∈ ns, Admits n v) ∧
    (∀ ns, keyword "allOf" = some (.list ns) → ∀ n ∈ ns, Admits n v) ∧
    (∀ t, keyword "type" = some t → t.Permits v) ∧
    (∀ s, v = .text s → AdmitsText node s) ∧
    (∀ x, v = .number x → AdmitsNumber node x) ∧
    (∀ xs, v = .list xs → AdmitsSize node xs ∧
      ∀ n, keyword "items" = some n → ∀ x ∈ xs, Admits n x) ∧
    (∀ fs : Fields, v = .object fs → AdmitsKeys node fs ∧
      ∀ ps, keyword "properties" = some (.object ps) → ∀ f ∈ ps, ∀ name x, f.1 = .text name →
        fs.named? name = some x → Admits f.2 x)
  | _, _ => False
termination_by schema => sizeOf schema
decreasing_by
  · exact Fields.sizeOf_lt_node_of_mem ‹_› ‹_›
  · exact Fields.sizeOf_lt_node_of_mem ‹_› ‹_›
  · exact Fields.sizeOf_lt_node ‹_›
  · exact Fields.sizeOf_lt_node_of_field ‹_› ‹_›

/-- The rules of a node for values of the single types; `A` says what its parts
    admit. -/
structure AdmitsByType [CharacterNames] (A : Value → Value → Prop) (fields : Fields) (v : Value) : Prop where
  text : ∀ s, v = .text s → AdmitsText fields s
  number : ∀ x, v = .number x → AdmitsNumber fields x
  list : ∀ xs, v = .list xs → AdmitsSize fields xs ∧
    ∀ n, fields.named? "items" = some n → ∀ x ∈ xs, A n x
  object : ∀ fs : Fields, v = .object fs → AdmitsKeys fields fs ∧
    ∀ ps, fields.named? "properties" = some (.object ps) → ∀ f ∈ ps, ∀ name x, f.1 = .text name →
      fs.named? name = some x → A f.2 x

theorem admits_object_iff [CharacterNames] {fields : Fields} {v : Value} :
    Admits (.object fields) v ↔
      (∀ c, fields.named? "const" = some c → v.SameJson c) ∧
      (∀ cs, fields.named? "enum" = some (.list cs) → ∃ c ∈ cs, v.SameJson c) ∧
      (∀ ns, fields.named? "anyOf" = some (.list ns) → ∃ n ∈ ns, Admits n v) ∧
      (∀ ns, fields.named? "allOf" = some (.list ns) → ∀ n ∈ ns, Admits n v) ∧
      (∀ t, fields.named? "type" = some t → t.Permits v) ∧ AdmitsByType Admits fields v := by
  rw [Admits]
  simp only [exists_prop]
  constructor
  · rintro ⟨h₁, h₂, h₃, h₄, h₅, h₆, h₇, h₈, h₉⟩
    exact ⟨h₁, h₂, h₃, h₄, h₅, h₆, h₇, h₈, h₉⟩
  · rintro ⟨h₁, h₂, h₃, h₄, h₅, h₆, h₇, h₈, h₉⟩
    exact ⟨h₁, h₂, h₃, h₄, h₅, h₆, h₇, h₈, h₉⟩

section
variable [CharacterNames] {A : Value → Value → Prop} {fields : Fields}

theorem admitsByType_text_iff {s : String} :
    AdmitsByType A fields (.text s) ↔ AdmitsText fields s :=
  ⟨fun h => h.text s rfl, fun h => ⟨fun _ heq => by cases heq; exact h, nofun, nofun, nofun⟩⟩

theorem admitsByType_number_iff {n : Number} :
    AdmitsByType A fields (.number n) ↔ AdmitsNumber fields n :=
  ⟨fun h => h.number n rfl, fun h => ⟨nofun, fun _ heq => by cases heq; exact h, nofun, nofun⟩⟩

theorem admitsByType_list_iff {xs : List Value} :
    AdmitsByType A fields (.list xs) ↔ AdmitsSize fields xs ∧
      ∀ n, fields.named? "items" = some n → ∀ x ∈ xs, A n x :=
  ⟨fun h => h.list xs rfl, fun h => ⟨nofun, nofun, fun _ heq => by cases heq; exact h, nofun⟩⟩

theorem admitsByType_object_iff {fs : Fields} :
    AdmitsByType A fields (.object fs) ↔ AdmitsKeys fields fs ∧
      ∀ ps, fields.named? "properties" = some (.object ps) → ∀ f ∈ ps, ∀ name x, f.1 = .text name →
        fs.named? name = some x → A f.2 x :=
  ⟨fun h => h.object fs rfl, fun h => ⟨nofun, nofun, nofun, fun _ heq => by cases heq; exact h⟩⟩

theorem admitsByType_null : AdmitsByType A fields .null := ⟨nofun, nofun, nofun, nofun⟩

theorem admitsByType_bool (b : Bool) : AdmitsByType A fields (.bool b) :=
  ⟨nofun, nofun, nofun, nofun⟩

end

/-! ## The supported schemas -/

/-- The keywords by which any draft constrains values. -/
def constraintKeywords : List String :=
  ["$ref", "$dynamicRef", "$recursiveRef", "const", "enum", "anyOf", "oneOf", "allOf", "not", "if",
    "then", "else", "type", "minLength", "maxLength", "pattern", "format", "multipleOf", "minimum",
    "exclusiveMinimum", "maximum", "exclusiveMaximum", "items", "prefixItems", "additionalItems",
    "unevaluatedItems", "contains", "minContains", "maxContains", "minItems", "maxItems", "uniqueItems",
    "properties", "patternProperties", "additionalProperties", "unevaluatedProperties",
    "propertyNames", "required", "dependencies", "dependentRequired", "dependentSchemas",
    "minProperties", "maxProperties"]

/-- The keywords beside `type` that constrain the values of single types. -/
def typeKeywords : List String :=
  ["minLength", "maxLength", "pattern", "format", "minimum", "exclusiveMinimum", "maximum",
    "exclusiveMaximum", "items", "minItems", "maxItems", "uniqueItems", "properties", "required",
    "additionalProperties"]

theorem typeKeywords_subset : typeKeywords ⊆ constraintKeywords := by decide

/-- A node uses no constraining keyword but these. -/
def Fields.UsesOnly (fields : Fields) (keywords : List String) : Prop :=
  ∀ keyword ∈ constraintKeywords, keyword ∉ keywords → fields.named? keyword = none

instance (fields : Fields) (keywords : List String) : Decidable (fields.UsesOnly keywords) := by
  unfold Fields.UsesOnly; infer_instance

/-- The rules of a node for single types have the types that the meta-schemas ask
    for, its pattern is one of those given, and required names are declared. -/
structure Fields.WellTyped (patterns : String → Prop) (fields : Fields) : Prop where
  numbers : ∀ keyword ∈ ["minLength", "maxLength", "minimum", "exclusiveMinimum", "maximum",
    "exclusiveMaximum", "minItems", "maxItems"], ∀ b, fields.named? keyword = some b →
    ∃ m, b = .number m
  pattern : ∀ b, fields.named? "pattern" = some b → ∃ p, b = .text p ∧ patterns p
  format : ∀ b, fields.named? "format" = some b → b = .text "date-time"
  truthValues : ∀ keyword ∈ ["uniqueItems", "additionalProperties"], ∀ b,
    fields.named? keyword = some b → ∃ c, b = .bool c
  properties : ∀ b, fields.named? "properties" = some b → ∃ ps, b = .object ps
  required : ∀ b, fields.named? "required" = some b → ∃ names : List String,
    b = .list (names.map .text) ∧ ∀ name ∈ names,
      ∃ ps : Fields, fields.named? "properties" = some (.object ps) ∧ .text name ∈ ps.keys

section
variable {fields : Fields} {keywords : List String}

theorem Fields.UsesOnly.named?_eq_none (h : fields.UsesOnly keywords) {keyword : String}
    (hk : keyword ∈ constraintKeywords) (hn : keyword ∉ keywords) : fields.named? keyword = none :=
  h keyword hk hn

/-- A node without rules for single types admits all values of all types. -/
theorem Fields.UsesOnly.admitsByType [CharacterNames] (h : fields.UsesOnly keywords)
    (hk : ∀ keyword ∈ typeKeywords, keyword ∉ keywords) (A : Value → Value → Prop) (v : Value) :
    AdmitsByType A fields v := by
  have hnone : ∀ keyword ∈ typeKeywords, fields.named? keyword = none := fun keyword hmem =>
    h keyword (typeKeywords_subset hmem) (hk keyword hmem)
  simp only [typeKeywords, List.forall_mem_cons] at hnone
  obtain ⟨h₁, h₂, h₃, h₄, h₅, h₆, h₇, h₈, h₉, h₁₀, h₁₁, h₁₂, h₁₃, h₁₄, h₁₅, -⟩ := hnone
  refine ⟨fun s _ => ⟨?_, ?_, ?_, ?_⟩, fun x _ => ⟨?_, ?_, ?_, ?_⟩, fun xs _ => ⟨⟨?_, ?_, ?_⟩, ?_⟩,
    fun fs _ => ⟨⟨?_, ?_⟩, ?_⟩⟩ <;> simp [*]

theorem Fields.UsesOnly.admits_const_iff [CharacterNames] (ho : fields.UsesOnly ["const"]) {c : Value}
    (hc : fields.named? "const" = some c) {v : Value} :
    Admits (.object fields) v ↔ v.SameJson c := by
  have hrules := ho.admitsByType (by decide) Admits v
  simp (disch := decide) [admits_object_iff, ho.named?_eq_none, hc, hrules]

theorem Fields.UsesOnly.admits_enum_iff [CharacterNames] (ho : fields.UsesOnly ["enum"]) {cs : List Value}
    (hc : fields.named? "enum" = some (.list cs)) {v : Value} :
    Admits (.object fields) v ↔ ∃ c ∈ cs, v.SameJson c := by
  have hrules := ho.admitsByType (by decide) Admits v
  simp (disch := decide) [admits_object_iff, ho.named?_eq_none, hc, hrules]

theorem Fields.UsesOnly.admits_anyOf_iff [CharacterNames] (ho : fields.UsesOnly ["anyOf"]) {ns : List Value}
    (hn : fields.named? "anyOf" = some (.list ns)) {v : Value} :
    Admits (.object fields) v ↔ ∃ n ∈ ns, Admits n v := by
  have hrules := ho.admitsByType (by decide) Admits v
  simp (disch := decide) [admits_object_iff, ho.named?_eq_none, hn, hrules]

theorem Fields.UsesOnly.admits_allOf_iff [CharacterNames] (ho : fields.UsesOnly ["allOf"]) {ns : List Value}
    (hn : fields.named? "allOf" = some (.list ns)) {v : Value} :
    Admits (.object fields) v ↔ ∀ n ∈ ns, Admits n v := by
  have hrules := ho.admitsByType (by decide) Admits v
  simp (disch := decide) [admits_object_iff, ho.named?_eq_none, hn, hrules]

theorem Fields.UsesOnly.admits_untyped [CharacterNames] (ho : fields.UsesOnly []) (v : Value) :
    Admits (.object fields) v := by
  have hrules := ho.admitsByType (by decide) Admits v
  simp (disch := decide) [admits_object_iff, ho.named?_eq_none, hrules]

theorem Fields.UsesOnly.admits_typed_iff [CharacterNames] (ho : fields.UsesOnly ("type" :: typeKeywords))
    {type : Value} (ht : fields.named? "type" = some type) {v : Value} :
    Admits (.object fields) v ↔ type.Permits v ∧ AdmitsByType Admits fields v := by
  simp (disch := decide) [admits_object_iff, ho.named?_eq_none, ht]

end

/-- The schemas whose meaning is complete, with patterns of the given ones only. -/
inductive Supported (patterns : String → Prop) : Value → Prop
  | bool (b : Bool) : Supported patterns (.bool b)
  | const {fields : Fields} {c : Value} (ho : fields.UsesOnly ["const"])
      (hc : fields.named? "const" = some c) : Supported patterns (.object fields)
  | enum {fields : Fields} {cs : List Value} (ho : fields.UsesOnly ["enum"])
      (hc : fields.named? "enum" = some (.list cs)) (hne : cs ≠ []) : Supported patterns (.object fields)
  | anyOf {fields : Fields} {ns : List Value} (ho : fields.UsesOnly ["anyOf"])
      (hn : fields.named? "anyOf" = some (.list ns)) (hne : ns ≠ []) (h : ∀ n ∈ ns, Supported patterns n) :
      Supported patterns (.object fields)
  | allOf {fields : Fields} {ns : List Value} (ho : fields.UsesOnly ["allOf"])
      (hn : fields.named? "allOf" = some (.list ns)) (h : ∀ n ∈ ns, Supported patterns n) :
      Supported patterns (.object fields)
  | untyped {fields : Fields} (ho : fields.UsesOnly []) : Supported patterns (.object fields)
  | typed {fields : Fields} {type : Value} (ho : fields.UsesOnly ("type" :: typeKeywords))
      (ht : fields.named? "type" = some type)
      (hn : (∃ name, type = .text name) ∨
        ∃ names : List String, names ≠ [] ∧ type = .list (names.map .text))
      (hw : fields.WellTyped patterns) (hi : ∀ n, fields.named? "items" = some n → Supported patterns n)
      (hp : ∀ ps, fields.named? "properties" = some (.object ps) → ∀ f ∈ ps, Supported patterns f.2) :
      Supported patterns (.object fields)

end SchemaGuard
