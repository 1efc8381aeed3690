/-
  SchemaGuard — what the meta-schemas demand of the keywords that are compiled.

  * `Follows.type_…`, `Follows.listed`, `Follows.minItems`, `Follows.count`: what single
    rules say of a value;
  * `Admits.…`: what dialects demand of an admitted object node, keyword by keyword.
    The types are names or a list of names, `required` is a list of texts, what is
    combined is a list of at least one schema, and so on.
-/
import SchemaGuard.Proofs.MetaSchema.Bounds
import SchemaGuard.Proofs.Number.Line

namespace SchemaGuard

/-! ## Values of one type -/

/-- A whole number that is not negative. -/
def Value.IsCount (v : Value) : Prop := ∃ n, ∃ k : Nat, v = .number n ∧ n.normal = .int k

namespace Rule

section
variable {types : TypeRules} {nested : Value → Path → List Violation} {v : Value}

theorem Follows.hasType [CharacterNames] {name : String} (h : (Rule.type [name]).Follows types nested v) :
    v.hasType types name := by
  obtain ⟨_, hname, htype⟩ := h.type
  obtain rfl := List.mem_singleton.1 hname
  exact htype

theorem Follows.type_array [CharacterNames] (h : (Rule.type ["array"]).Follows types nested v) :
    ∃ xs, v = .list xs := by
  have htype := h.hasType
  cases v with
  | list xs => exact ⟨xs, rfl⟩
  | _ => simp [Value.hasType] at htype

theorem Follows.type_object [CharacterNames] (h : (Rule.type ["object"]).Follows types nested v) :
    ∃ fields, v = .object fields := by
  have htype := h.hasType
  cases v with
  | object fields => exact ⟨fields, rfl⟩
  | _ => simp [Value.hasType] at htype

theorem Follows.type_string [CharacterNames] (h : (Rule.type ["string"]).Follows types nested v) :
    ∃ s, v = .text s := by
  have htype := h.hasType
  cases v with
  | scalar x => cases x <;> simp_all [Value.hasType]
  | _ => simp [Value.hasType] at htype

theorem Follows.type_integer [CharacterNames] (h : (Rule.type ["integer"]).Follows types nested v) :
    ∃ n : Number, v = .number n ∧ n.isWhole := by
  have htype := h.hasType
  cases v with
  | scalar x =>
    cases x with
    | number n => cases n <;> simp_all [Value.hasType, Number.isWhole]
    | _ => simp [Value.hasType] at htype
  | _ => simp [Value.hasType] at htype

theorem Follows.listed [CharacterNames] {options : List String} (h : (Rule.listed options).Follows types nested v) :
    ∃ name ∈ options, v = .text name := by
  obtain ⟨path, h⟩ := h
  rw [violations, violationIf_eq_nil_iff, Bool.not_eq_false'] at h
  obtain ⟨name, hname, heq⟩ := List.any_eq_true.1 h
  exact ⟨name, hname, eq_of_beq heq⟩

theorem Follows.minItems [CharacterNames] {limit : Nat} {elements : List Value}
    (h : (Rule.minItems limit).Follows types nested (.list elements)) : limit ≤ elements.length := by
  obtain ⟨path, h⟩ := h
  rw [violations, violationIf_eq_nil_iff, decide_eq_false_iff_not, not_lt] at h
  exact h

theorem Follows.minimum [CharacterNames] {limit : Int} {n : Number}
    (h : (Rule.minimum limit false).Follows types nested (.number n)) : ¬ n.lt (.int limit) := by
  obtain ⟨path, h⟩ := h
  rw [violations] at h
  simpa [Value.number?, violationIf_eq_nil_iff] using h

theorem Follows.count [CharacterNames] (h : Draft.count.Follows types nested v) : v.IsCount := by
  obtain ⟨n, rfl, hwhole⟩ := (h.all (.type ["integer"]) (by simp)).type_integer
  have hnonneg : ¬ n.lt (.int 0) := (h.all (.minimum 0 false) (by simp)).minimum
  obtain ⟨k, hk⟩ := Number.isWhole_iff.1 hwhole
  have hk0 : 0 ≤ k := by
    by_contra hneg
    have hlt : ((k : ℚ) : WithTop ℚ) < ((0 : Int) : ℚ) := by
      exact_mod_cast not_le.1 hneg
    exact hnonneg (Number.lt_iff.2 ⟨_, _, hk, Number.value?_int 0, WithBot.coe_lt_coe.2 hlt⟩)
  refine ⟨n, k.toNat, rfl, Number.normal_eq_int_iff.2 ?_⟩
  rwa [Int.toNat_of_nonneg hk0]

end

end Rule

/-! ## Keywords of admitted nodes -/

namespace Draft

open Rule

/-- The names that types have. -/
def names : List String := ["array", "boolean", "integer", "null", "number", "object", "string"]

section
variable {draft : Draft} (hdraft : draft ≠ .three)
include hdraft

theorem type_mem_keywords : ("type", typeNames) ∈ draft.rule.keywords := by
  cases draft with
  | three => exact absurd rfl hdraft
  | _ => simp [rule, draftFour, draftSix, draftSeven, draftNineteen, draftTwenty, validationVocabulary,
      vocabulary, keywords, keywordsAll]

theorem pattern_mem_keywords : ("pattern", text) ∈ draft.rule.keywords := by
  cases draft with
  | three => exact absurd rfl hdraft
  | _ => simp [rule, draftFour, draftSix, draftSeven, sharedKeywords, draftNineteen, draftTwenty,
      validationVocabulary, vocabulary, keywords, keywordsAll]

theorem required_mem_keywords : ("required", textList) ∈ draft.rule.keywords ∨
    ("required", filledTextList) ∈ draft.rule.keywords := by
  cases draft with
  | three => exact absurd rfl hdraft
  | _ => simp [rule, draftFour, draftSix, draftSeven, sharedKeywords, draftNineteen, draftTwenty,
      validationVocabulary, vocabulary, keywords, keywordsAll]

theorem enum_mem_keywords : ("enum", list) ∈ draft.rule.keywords ∨
    ("enum", .all [.type ["array"], .minItems 1, .uniqueItems]) ∈ draft.rule.keywords := by
  cases draft with
  | three => exact absurd rfl hdraft
  | _ => simp [rule, draftFour, draftSix, draftSeven, draftNineteen, draftTwenty, validationVocabulary,
      vocabulary, keywords, keywordsAll]

end

section
variable {draft : Draft} {fields : Fields}

/-- Schemas are objects or truth values. -/
theorem Admits.object_or_bool [CharacterNames] {v : Value} (h : draft.Admits v) :
    (∃ fields, v = .object fields) ∨ ∃ b, v = .bool b := by
  have hdraft := h.combines
  obtain ⟨nested, h, -⟩ := h.exists_follows
  have htype : ∃ name ∈ ["object", "boolean"], v.hasType draft.types name := by
    cases draft with
    | three => exact absurd rfl hdraft
    | four => exact ⟨_, by simp, (h.all (.type ["object"]) (by simp)).hasType⟩
    | six | seven => exact (h.all (.type ["object", "boolean"]) (by simp)).type
    | nineteen | twenty => exact (h.all (.type ["object", "boolean"]) (by simp)).type
  obtain ⟨name, hname, htype⟩ := htype
  rcases List.mem_pair.1 hname with rfl | rfl
  · cases v with
    | object fields => exact Or.inl ⟨fields, rfl⟩
    | _ => simp [Value.hasType] at htype
  · cases v with
    | scalar x => cases x <;> simp_all [Value.hasType]
    | _ => simp [Value.hasType] at htype

theorem Admits.isCount [CharacterNames] (h : draft.Admits (.object fields)) {k : String} (hk : k ∈ sizeKeywords)
    {b : Value} (hb : fields.named? k = some b) : b.IsCount := by
  have hdraft := h.combines
  obtain ⟨nested, h, -⟩ := h.exists_follows
  exact (h.keyword hb (count_mem_keywords hdraft k hk)).count

theorem Admits.pattern [CharacterNames] (h : draft.Admits (.object fields)) {v : Value}
    (hv : fields.named? "pattern" = some v) : ∃ s, v = .text s := by
  have hdraft := h.combines
  obtain ⟨nested, h, -⟩ := h.exists_follows
  exact (h.keyword hv (pattern_mem_keywords hdraft)).type_string

theorem Admits.enum [CharacterNames] (h : draft.Admits (.object fields)) {v : Value}
    (hv : fields.named? "enum" = some v) : ∃ es, v = .list es := by
  have hdraft := h.combines
  obtain ⟨nested, h, -⟩ := h.exists_follows
  rcases enum_mem_keywords hdraft with hmem | hmem
  · exact (h.keyword hv hmem).type_array
  · exact ((h.keyword hv hmem).all (.type ["array"]) (by simp)).type_array

/-- Schemas are combined in lists, of which none is empty. -/
theorem Admits.combiner [CharacterNames] (h : draft.Admits (.object fields)) {k : String} (hk : k ∈ combiners)
    {v : Value} (hv : fields.named? k = some v) : ∃ nodes, v = .list nodes ∧ nodes ≠ [] := by
  have hdraft := h.combines
  obtain ⟨nested, h, -⟩ := h.exists_follows
  have hlist := h.keyword hv (schemaList_mem_keywords hdraft k hk)
  obtain ⟨nodes, rfl⟩ := (hlist.all (.type ["array"]) (by simp)).type_array
  exact ⟨nodes, rfl, List.length_pos_iff.1 (hlist.all (.minItems 1) (by simp)).minItems⟩

theorem Admits.properties [CharacterNames] (h : draft.Admits (.object fields)) {v : Value}
    (hv : fields.named? "properties" = some v) : ∃ declared, v = .object declared := by
  have hdraft := h.combines
  obtain ⟨nested, h, -⟩ := h.exists_follows
  exact ((h.keyword hv (properties_mem_keywords hdraft)).all (.type ["object"]) (by simp)).type_object

theorem Admits.required [CharacterNames] (h : draft.Admits (.object fields)) {v : Value}
    (hv : fields.named? "required" = some v) : ∃ ns, v = .list ns ∧ ∀ n ∈ ns, ∃ s, n = .text s := by
  have hdraft := h.combines
  obtain ⟨nested, h, -⟩ := h.exists_follows
  have hlist : (Rule.type ["array"]).Follows draft.types nested v ∧
      (Rule.items (.type ["string"])).Follows draft.types nested v := by
    rcases required_mem_keywords hdraft with hmem | hmem
    · exact ⟨(h.keyword hv hmem).all _ (by simp), (h.keyword hv hmem).all _ (by simp)⟩
    · exact ⟨(h.keyword hv hmem).all _ (by simp), (h.keyword hv hmem).all _ (by simp)⟩
  obtain ⟨ns, rfl⟩ := hlist.1.type_array
  exact ⟨ns, rfl, fun n hn => (hlist.2.items n hn).type_string⟩

/-- A type is one of the names, or a list of some of them. -/
theorem Admits.typed [CharacterNames] (h : draft.Admits (.object fields)) {v : Value}
    (hv : fields.named? "type" = some v) : (∃ name ∈ names, v = .text name) ∨
      ∃ ts, v = .list ts ∧ ts ≠ [] ∧ ∀ t ∈ ts, ∃ name ∈ names, t = .text name := by
  have hdraft := h.combines
  obtain ⟨nested, h, -⟩ := h.exists_follows
  obtain ⟨rule, hrule, hfollows⟩ := (h.keyword hv (type_mem_keywords hdraft)).someOf
  rcases List.mem_pair.1 hrule with rfl | rfl
  · exact Or.inl hfollows.listed
  · obtain ⟨ts, rfl⟩ := (hfollows.all (.type ["array"]) (by simp)).type_array
    have hfilled : 1 ≤ ts.length := (hfollows.all (.minItems 1) (by simp)).minItems
    have hitems := (hfollows.all (.items typeName) (by simp)).items
    exact Or.inr ⟨ts, rfl, List.length_pos_iff.1 hfilled, fun t ht => (hitems t ht).listed⟩

end

end Draft

end SchemaGuard
