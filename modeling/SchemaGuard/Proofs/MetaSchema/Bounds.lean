/-
  SchemaGuard — bounds in documents that a meta-schema admits.

  The meta-schemas demand that length and item bounds are whole numbers, and of the
  schemas inside a schema what they demand of the schema (`Draft.Admits`). So the
  bounds of the compiled tree are numbers (`numericSizes_of_check`).

  Draft 3 is left out: it does not know `anyOf`, `oneOf` and `allOf`, and says nothing
  of the schemas that are listed there.
-/
import SchemaGuard.MetaSchema.Draft
import SchemaGuard.Proofs.Compile.Shape

namespace SchemaGuard

/-! ## Following a rule -/

namespace Rule

/-- A value follows a rule, at some place in a document. -/
def Follows [CharacterNames] (types : TypeRules) (nested : Value → Path → List Violation) (rule : Rule)
    (v : Value) : Prop :=
  ∃ path, rule.violations types nested v path = []

section
variable {types : TypeRules} {nested : Value → Path → List Violation}

theorem violationIf_eq_nil_iff {violated : Bool} {path : Path} {v : Value} {breach : Breach} :
    violationIf violated path v breach = [] ↔ violated = false := by
  cases violated <;> simp [violationIf]

theorem violationsAll_eq_nil_iff [CharacterNames] {rules : List Rule} {v : Value} {path : Path} :
    violationsAll types nested rules v path = [] ↔
      ∀ rule ∈ rules, rule.violations types nested v path = [] := by
  induction rules with
  | nil => simp [violationsAll]
  | cons rule rules ih => rw [violationsAll, List.append_eq_nil_iff, ih, List.forall_mem_cons]

theorem followsSome_iff [CharacterNames] {rules : List Rule} {v : Value} {path : Path} :
    followsSome types nested rules v path ↔ ∃ rule ∈ rules, rule.violations types nested v path = [] := by
  induction rules with
  | nil => simp [followsSome]
  | cons rule rules ih => simp [followsSome, ih]

theorem violationsDeclared_eq_nil_iff [CharacterNames] {declared : List (String × Rule)} {fields : Fields}
    {path : Path} :
    violationsDeclared types nested declared fields path = [] ↔
      ∀ d ∈ declared, ∀ v, fields.named? d.1 = some v →
        d.2.violations types nested v (path ++ [.key d.1]) = [] := by
  induction declared with
  | nil => simp [violationsDeclared]
  | cons d declared ih =>
    obtain ⟨name, rule⟩ := d
    rw [violationsDeclared, List.append_eq_nil_iff, ih, List.forall_mem_cons]
    cases fields.named? name <;> simp

theorem Follows.all [CharacterNames] {rules : List Rule} {v : Value} (h : (Rule.all rules).Follows types nested v) :
    ∀ rule ∈ rules, rule.Follows types nested v := by
  obtain ⟨path, h⟩ := h
  rw [violations, violationsAll_eq_nil_iff] at h
  exact fun rule hr => ⟨path, h rule hr⟩

theorem Follows.someOf [CharacterNames] {rules : List Rule} {v : Value}
    (h : (Rule.someOf rules).Follows types nested v) :
    ∃ rule ∈ rules, rule.Follows types nested v := by
  obtain ⟨path, h⟩ := h
  rw [violations, violationIf_eq_nil_iff, Bool.not_eq_false', followsSome_iff] at h
  obtain ⟨rule, hr, h⟩ := h
  exact ⟨rule, hr, path, h⟩

theorem Follows.type [CharacterNames] {admitted : List String} {v : Value}
    (h : (Rule.type admitted).Follows types nested v) : ∃ name ∈ admitted, v.hasType types name := by
  obtain ⟨path, h⟩ := h
  rw [violations, violationIf_eq_nil_iff, Bool.not_eq_false'] at h
  exact List.any_eq_true.1 h

theorem Follows.items [CharacterNames] {rule : Rule} {elements : List Value}
    (h : (Rule.items rule).Follows types nested (.list elements)) :
    ∀ x ∈ elements, rule.Follows types nested x := by
  obtain ⟨path, h⟩ := h
  rw [violations, List.flatMap_eq_nil_iff] at h
  intro x hx
  obtain ⟨i, hi⟩ := List.mem_iff_getElem?.1 hx
  exact ⟨_, h (x, i) (List.mk_mem_zipIdx_iff_getElem?.2 hi)⟩

theorem Follows.values [CharacterNames] {rule : Rule} {fields : Fields}
    (h : (Rule.values rule).Follows types nested (.object fields)) :
    ∀ f ∈ fields, rule.Follows types nested f.2 := by
  obtain ⟨path, h⟩ := h
  rw [violations, List.flatMap_eq_nil_iff] at h
  exact fun f hf => ⟨_, h f hf⟩

/-! ## Keywords -/

mutual
/-- The keywords that a rule for objects speaks of, each with its rule. -/
def keywords : Rule → List (String × Rule)
  | .properties declared => declared
  | .all rules => keywordsAll rules
  | _ => []
/-- The keywords that several rules speak of. -/
def keywordsAll : List Rule → List (String × Rule)
  | [] => []
  | rule :: rules => rule.keywords ++ keywordsAll rules
end

theorem mem_keywordsAll {d : String × Rule} {rules : List Rule} :
    d ∈ keywordsAll rules ↔ ∃ rule ∈ rules, d ∈ rule.keywords := by
  induction rules with
  | nil => simp [keywordsAll]
  | cons rule rules ih => simp [keywordsAll, ih]

/-- The value of a keyword follows the rule of the keyword. -/
theorem Follows.keyword [CharacterNames] {fields : Fields} {name : String} {demand : Rule} {v : Value}
    (hv : fields.named? name = some v) : ∀ {rule : Rule},
    rule.Follows types nested (.object fields) → (name, demand) ∈ rule.keywords →
      demand.Follows types nested v
  | .properties declared, ⟨path, h⟩, hmem => by
    rw [violations, violationsDeclared_eq_nil_iff] at h
    exact ⟨_, h _ hmem v hv⟩
  | .all rules, h, hmem => by
    obtain ⟨rule, hr, hmem⟩ := mem_keywordsAll.1 hmem
    exact (h.all rule hr).keyword hv hmem
termination_by rule => sizeOf rule

end

end Rule

/-! ## Dialects -/

namespace Draft

open Rule

/-- A dialect that knows how schemas are combined admits a value as a schema, at some place in
    a document. -/
structure Admits [CharacterNames] (draft : Draft) (v : Value) : Prop where
  combines : draft ≠ .three
  follows : ∃ levels path, draft.rule.violationsIn draft.types levels v path = []

theorem Admits.exists_follows [CharacterNames] {draft : Draft} {v : Value} (h : draft.Admits v) :
    ∃ nested, draft.rule.Follows draft.types nested v ∧
      ∀ w, Rule.schema.Follows draft.types nested w → draft.Admits w := by
  obtain ⟨hdraft, levels, path, h⟩ := h
  cases levels with
  | zero => cases h
  | succ levels =>
    refine ⟨draft.rule.violationsIn draft.types levels, ⟨path, h⟩, ?_⟩
    rintro w ⟨path, hw⟩
    exact ⟨hdraft, levels, path, hw⟩

/-- The keywords that bound sizes. -/
def sizeKeywords : List String := ["minLength", "maxLength", "minItems", "maxItems"]

/-- The keywords that combine schemas. -/
def combiners : List String := ["anyOf", "oneOf", "allOf"]

section
variable {draft : Draft} (hdraft : draft ≠ .three)
include hdraft

theorem count_mem_keywords : ∀ k ∈ sizeKeywords, (k, count) ∈ draft.rule.keywords := by
  cases draft with
  | three => exact absurd rfl hdraft
  | _ => simp [sizeKeywords, rule, draftFour, draftSix, draftSeven, sharedKeywords, draftNineteen,
      draftTwenty, validationVocabulary, vocabulary, keywords, keywordsAll]

theorem schemaList_mem_keywords : ∀ k ∈ combiners, (k, schemaList) ∈ draft.rule.keywords := by
  cases draft with
  | three => exact absurd rfl hdraft
  | _ => simp [combiners, rule, draftFour, draftSix, draftSeven, combiningKeywords, draftNineteen,
      draftTwenty, applicatorKeywords, vocabulary, keywords, keywordsAll]

theorem properties_mem_keywords : ("properties", mapOf .schema) ∈ draft.rule.keywords := by
  cases draft with
  | three => exact absurd rfl hdraft
  | _ => simp [rule, draftFour, draftSix, draftSeven, sharedKeywords, draftNineteen, draftTwenty,
      applicatorKeywords, vocabulary, keywords, keywordsAll]

theorem items_mem_keywords : ("items", .schema) ∈ draft.rule.keywords ∨
    ("items", .someOf [.schema, schemaList]) ∈ draft.rule.keywords := by
  cases draft with
  | three => exact absurd rfl hdraft
  | _ => simp [rule, draftFour, draftSix, draftSeven, sharedKeywords, draftNineteen, draftTwenty,
      applicatorKeywords, vocabulary, keywords, keywordsAll]

end

section
variable {draft : Draft} {fields : Fields}

/-- A bound on a size is a number. -/
theorem Admits.isSome_bound? [CharacterNames] (h : draft.Admits (.object fields)) {k : String} (hk : k ∈ sizeKeywords)
    {b : Value} (hb : fields.named? k = some b) : (bound? b).isSome := by
  have hdraft := h.combines
  obtain ⟨nested, h, -⟩ := h.exists_follows
  have hcount := h.keyword hb (count_mem_keywords hdraft k hk)
  obtain ⟨name, hname, htype⟩ := (hcount.all (.type ["integer"]) (by simp)).type
  obtain rfl := List.mem_singleton.1 hname
  cases b with
  | scalar s => cases s <;> simp_all [Value.hasType, bound?]
  | _ => simp [Value.hasType] at htype

theorem Admits.of_schemaList [CharacterNames] {nested : Value → Path → List Violation}
    (hnested : ∀ w, Rule.schema.Follows draft.types nested w → draft.Admits w) {nodes : List Value}
    (h : schemaList.Follows draft.types nested (.list nodes)) : ∀ n ∈ nodes, draft.Admits n :=
  fun n hn => hnested n ((h.all (.items .schema) (by simp)).items n hn)

theorem Admits.combined [CharacterNames] (h : draft.Admits (.object fields)) {k : String} (hk : k ∈ combiners)
    {nodes : List Value} (hn : fields.named? k = some (.list nodes)) : ∀ n ∈ nodes, draft.Admits n := by
  have hdraft := h.combines
  obtain ⟨nested, h, hnested⟩ := h.exists_follows
  exact Admits.of_schemaList hnested (h.keyword hn (schemaList_mem_keywords hdraft k hk))

/-- The schema of elements is admitted; a list in its place is one of schemas. -/
theorem Admits.items [CharacterNames] (h : draft.Admits (.object fields)) {node : Value}
    (hn : fields.named? "items" = some node) (hlist : ∀ nodes, node ≠ .list nodes) :
    draft.Admits node := by
  have hdraft := h.combines
  obtain ⟨nested, h, hnested⟩ := h.exists_follows
  rcases items_mem_keywords hdraft with hmem | hmem
  · exact hnested node (h.keyword hn hmem)
  · obtain ⟨rule, hrule, hnode⟩ := (h.keyword hn hmem).someOf
    rcases List.mem_pair.1 hrule with rfl | rfl
    · exact hnested node hnode
    · obtain ⟨name, hname, htype⟩ := (hnode.all (.type ["array"]) (by simp)).type
      obtain rfl := List.mem_singleton.1 hname
      cases node with
      | list nodes => exact absurd rfl (hlist nodes)
      | _ => simp [Value.hasType] at htype

theorem Admits.declared [CharacterNames] (h : draft.Admits (.object fields)) {declared : Fields}
    (hd : fields.declared? = some declared) : ∀ f ∈ declared, draft.Admits f.2 := by
  have hdraft := h.combines
  obtain ⟨nested, h, hnested⟩ := h.exists_follows
  unfold Fields.declared? at hd
  split at hd
  next => cases hd; exact nofun
  next hp =>
    cases hd
    have hmap := h.keyword hp (properties_mem_keywords hdraft)
    exact fun f hf => hnested _ ((hmap.all (.values .schema) (by simp)).values f hf)
  next => split at hd <;> cases hd; exact nofun

end

end Draft

section
variable [CharacterNames] {document : Value} {pointer : String}

theorem Draft.check_eq_ok_iff {draft : Draft} :
    draft.check document pointer = .ok () ↔ draft.violations document = [] := by
  unfold Draft.check
  dsimp only
  split
  next h => simpa [Draft.sortedViolations, List.isEmpty_iff, ← List.length_eq_zero_iff] using h
  next h => simpa [Draft.sortedViolations, List.isEmpty_iff, ← List.length_eq_zero_iff] using h

/-- A document is checked by the meta-schema of its own dialect. -/
theorem checkSchema_eq_ok_iff : checkSchema document pointer = .ok (.ok ()) ↔
    ∃ draft, Draft.ofDocument document = .ok draft ∧ draft.check document pointer = .ok () := by
  unfold checkSchema
  cases Draft.ofDocument document with
  | error f => simp [bind, Except.bind]
  | ok draft => simp [bind, Except.bind, pure, Except.pure]

theorem Draft.admits_of_check {draft : Draft} (hdraft : draft ≠ .three)
    (h : draft.check document pointer = .ok ()) : draft.Admits document :=
  ⟨hdraft, _, _, Draft.check_eq_ok_iff.1 h⟩

end

/-! ## Compiled trees -/

open Validator

section
variable {draft : Draft} {fields : Fields}

theorem isSome_bound?_of_given [CharacterNames] (h : draft.Admits (.object fields)) {k : String}
    (hk : k ∈ Draft.sizeKeywords) : ∀ b ∈ (fields.given? k).toList, (bound? b).isSome := by
  intro b hb
  rw [Option.mem_toList, Fields.given?_eq_some_iff] at hb
  exact h.isSome_bound? hk hb.1

theorem Draft.Admits.of_reading [CharacterNames] (h : draft.Admits (.object fields)) :
    match fields.reading with
      | .union _ (.list nodes) | .all (.list nodes) => ∀ n ∈ nodes, draft.Admits n
      | _ => True := by
  have hfrom := fields.reading_isFrom
  split
  next hr =>
    rw [hr] at hfrom
    exact h.combined (by rcases hfrom.1 with rfl | rfl <;> simp [Draft.combiners]) hfrom.2
  next hr => rw [hr] at hfrom; exact h.combined (by simp [Draft.combiners]) hfrom
  next => trivial

/-- The tree of an admitted schema has numbers as bounds. -/
theorem Draft.Admits.numericSizes [CharacterNames] {mode : Closedness} {s : Value} {p : String} {V : Validator}
    (h : draft.Admits s) (hV : compile s mode p = .ok V) : V.NumericSizes := by
  have hleaf : ∀ W : Validator, W.children = [] → W.sizeBounds = [] → W.NumericSizes :=
    fun W hc hb => throughout_iff.2 ⟨by simp [hb], by simp [hc]⟩
  -- some dialects admit a list as `items`, of which nothing is known; it does not compile
  have hsteps : Compositional mode
      (fun n _ W => (∀ nodes, n ≠ .list nodes) ∧ (draft.Admits n → W.NumericSizes))
      (fun fields _ _ W => draft.Admits (.object fields) → W.NumericSizes) := {
    bool := fun b p => ⟨nofun, fun _ => by cases b <;> exact hleaf _ rfl rfl⟩
    literal := fun fields p v _ => ⟨nofun, fun _ => hleaf _ rfl rfl⟩
    choices := fun fields p values V _ hV => ⟨nofun, fun _ => by
      obtain ⟨es, -, -, ⟨e, -, rfl⟩ | ⟨texts, -, rfl⟩ | ⟨-, rfl⟩⟩ := compileEnum_eq_ok hV
      · exact hleaf _ rfl rfl
      · exact hleaf _ rfl rfl
      · refine throughout_iff.2 ⟨nofun, fun c hc => ?_⟩
        obtain ⟨e, -, rfl⟩ := List.mem_map.1 hc
        exact hleaf _ rfl rfl⟩
    union := fun fields p keyword nodes Vs V hr hVs hV => ⟨nofun, fun h => by
      have hnodes := h.of_reading
      rw [hr] at hnodes
      exact throughout_unionOf hV (hVs.forall_mem fun n hn q W hW => hW.2 (hnodes n hn)) nofun⟩
    all := fun fields p nodes Vs hr hVs => ⟨nofun, fun h => by
      have hnodes := h.of_reading
      rw [hr] at hnodes
      exact throughout_intersectionOf (hVs.forall_mem fun n hn q W hW => hW.2 (hnodes n hn)) nofun
        fun _ _ => nofun⟩
    typed := fun fields p type V _ hV => ⟨nofun, hV⟩
    free := fun fields p _ => ⟨nofun, fun _ => hleaf _ rfl rfl⟩
    types := fun fields p types Vs V hVs hV h =>
      throughout_unionOf hV (hVs.forall_mem fun _ _ _ _ hW => hW h) nofun
    untyped := fun fields p _ => hleaf _ rfl rfl
    text := fun fields p V hV h => by
      obtain ⟨pattern, -, hV⟩ := bind_eq_ok_iff.1 hV
      cases hV
      refine throughout_iff.2 ⟨fun b hb => ?_, nofun⟩
      rcases List.mem_append.1 hb with hb | hb
      exacts [isSome_bound?_of_given h (by simp [Draft.sizeKeywords]) b hb,
        isSome_bound?_of_given h (by simp [Draft.sizeKeywords]) b hb]
    number := fun fields p _ => hleaf _ rfl rfl
    integer := fun fields p _ => hleaf _ rfl rfl
    boolean := fun fields p _ => hleaf _ rfl rfl
    null := fun fields p _ => hleaf _ rfl rfl
    array := fun fields p node items hn hi h => by
      refine throughout_iff.2 ⟨fun b hb => ?_, ?_⟩
      · rcases List.mem_append.1 hb with hb | hb
        exacts [isSome_bound?_of_given h (by simp [Draft.sizeKeywords]) b hb,
          isSome_bound?_of_given h (by simp [Draft.sizeKeywords]) b hb]
      · exact List.forall_mem_singleton.2 (hi.2 (h.items hn hi.1))
    object := fun fields p declared properties required hd hp hr h => by
      refine throughout_iff.2 ⟨nofun, fun c hc => ?_⟩
      obtain ⟨q, hq, rfl⟩ := List.mem_map.1 hc
      exact hp.forall_mem (fun f hf _ _ hW => hW.2 (h.declared hd f hf)) q hq }
  exact (hsteps.of_compileNode s p V hV).2 h

end

/-- **Bounds that a meta-schema admits are numbers.** -/
theorem numericSizes_of_check [CharacterNames] {draft : Draft} (hdraft : draft ≠ .three) {s : Value}
    {mode : Closedness} {p q : String} {V : Validator} (hs : draft.check s q = .ok ())
    (hV : compile s mode p = .ok V) : V.NumericSizes :=
  (Draft.admits_of_check hdraft hs).numericSizes hV

end SchemaGuard
