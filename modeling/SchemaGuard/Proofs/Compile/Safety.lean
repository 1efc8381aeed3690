/-
  SchemaGuard — compiling documents that a meta-schema admits.

  * `d.HasSchema n`: the document `d` has `n` as one of its schemas;
  * `Unsupported d problem`: a schema of `d` gives one of the five reasons for which
    an admitted document has no validator;
  * `Ends d P x`: a computation ends with a result that has the property `P`, or with
    such a reason, never with a fault; it passes from the parts of a schema to the
    whole as `Ends.bind`;
  * `WellKept W`: the bounds, required names and pattern text that a node keeps are of
    the right kind.

  Main result: `compile_of_checkSchema`.
-/
import Mathlib
import SchemaGuard.Proofs.MetaSchema.Demands

namespace SchemaGuard

open Validator

/-! ## The schemas of a document -/

/-- A document has as schemas itself and what its schemas combine, or demand of
    elements and properties. -/
inductive Value.HasSchema (d : Value) : Value → Prop
  | self : HasSchema d d
  | combined {fields keyword nodes n} : HasSchema d (.object fields) → keyword ∈ Draft.combiners →
      Fields.named? fields keyword = some (.list nodes) → n ∈ nodes → HasSchema d n
  | items {fields n} : HasSchema d (.object fields) → Fields.named? fields "items" = some n →
      HasSchema d n
  | property {fields declared f} : HasSchema d (.object fields) →
      Fields.declared? fields = some declared → f ∈ declared → HasSchema d f.2

/-- The type of a node is this one, or a list with it. -/
def Fields.MayBe (fields : Fields) (name : String) : Prop :=
  fields.named? "type" = some (.text name) ∨
    ∃ ts, fields.named? "type" = some (.list ts) ∧ .text name ∈ ts

section
variable {d n : Value} {draft : Draft}

theorem Value.IsJson.declared {fields declared : Fields} (h : Value.IsJson (.object fields))
    (hd : fields.declared? = some declared) : ∀ f ∈ declared, f.1.isText ∧ f.2.IsJson := by
  unfold Fields.declared? at hd
  split at hd
  next => cases hd; exact nofun
  next hp =>
    cases hd
    obtain ⟨-, htext, hjson⟩ := Value.isJson_object.1 (h.named? hp)
    exact fun f hf => ⟨htext _ (List.mem_map_of_mem hf), hjson f hf⟩
  next => split at hd <;> cases hd; exact nofun

theorem Value.HasSchema.isJson (h : d.HasSchema n) (hd : d.IsJson) : n.IsJson := by
  induction h with
  | self => exact hd
  | combined _ _ hnodes hn ih => exact Value.isJson_list.1 (ih.named? hnodes) _ hn
  | items _ hn ih => exact ih.named? hn
  | property _ hdeclared hf ih => exact (ih.declared hdeclared _ hf).2

theorem Draft.Admits.ne_list [CharacterNames] (h : draft.Admits n) : ∀ nodes, n ≠ .list nodes := by
  rcases h.object_or_bool with ⟨_, rfl⟩ | ⟨_, rfl⟩ <;> nofun

/-- The schemas of an admitted document are admitted; a list is no schema. -/
theorem Value.HasSchema.admits [CharacterNames] (h : d.HasSchema n) (hd : draft.Admits d)
    (hlist : ∀ nodes, n ≠ .list nodes) : draft.Admits n := by
  induction h with
  | self => exact hd
  | combined _ hk hnodes hn ih => exact (ih nofun).combined hk hnodes _ hn
  | items _ hn ih => exact (ih nofun).items hn hlist
  | property _ hdeclared hf ih => exact (ih nofun).declared hdeclared _ hf

end

/-! ## Reasons for refusing -/

section
variable [CharacterNames]

/-- A schema of the document gives a reason for which it has no validator. -/
inductive Unsupported (d : Value) : SchemaProblem → Prop
  | reference {fields} : d.HasSchema (.object fields) → Fields.has fields "$ref" →
      Unsupported d .reference
  | emptyEnum {fields} : d.HasSchema (.object fields) →
      Fields.named? fields "enum" = some (.list []) → Unsupported d .enumEmpty
  | unreadablePattern {fields s refusal} : d.HasSchema (.object fields) →
      Fields.named? fields "pattern" = some (.text s) →
      Pattern.ofText (Pattern.anchorEnd s.toList) = .error (.refused refusal) →
      Unsupported d (.invalidPattern (.text s) (refusal.message (Pattern.anchorEnd s.toList)))
  | withoutItems {fields} : d.HasSchema (.object fields) → Fields.MayBe fields "array" →
      Fields.named? fields "items" = none → Unsupported d .itemsMissing
  | listedItems {fields nodes} : d.HasSchema (.object fields) → Fields.MayBe fields "array" →
      Fields.named? fields "items" = some (.list nodes) → Unsupported d .notASchema

/-- Reading a pattern of the document never ends with a fault. -/
def Value.PatternsRead (d : Value) : Prop :=
  ∀ fields s f, d.HasSchema (.object fields) → Fields.named? fields "pattern" = some (.text s) →
    Pattern.ofText (Pattern.anchorEnd s.toList) ≠ .error (.fault f)

/-- Whether reading the pattern of a node, if it has one, comes to an end. -/
def Value.readsPattern : Value → Bool
  | .object fields =>
    match Fields.named? fields "pattern" with
    | some (.text s) =>
      match Pattern.ofText (Pattern.anchorEnd s.toList) with
      | .error (.fault _) => false
      | _ => true
    | _ => true
  | _ => true

omit [CharacterNames] in
theorem Value.HasSchema.mem_parts {d n : Value} (h : d.HasSchema n) : n ∈ d.parts := by
  have hfield : ∀ {fields : Fields} {name : String} {v : Value}, .object fields ∈ d.parts →
      fields.named? name = some v → v ∈ d.parts := fun hfields hv =>
    Value.parts_subset hfields (Value.field_mem_parts (Fields.mem_of_named? hv))
  induction h with
  | self => exact d.self_mem_parts
  | combined _ _ hnodes hn ih => exact Value.parts_subset (hfield ih hnodes) (Value.item_mem_parts hn)
  | items _ hn ih => exact hfield ih hn
  | property _ hdeclared hf ih =>
    unfold Fields.declared? at hdeclared
    split at hdeclared
    next => cases hdeclared; cases hf
    next hp => cases hdeclared; exact Value.parts_subset (hfield ih hp) (Value.field_mem_parts hf)
    next => split at hdeclared <;> cases hdeclared; cases hf

/-- It is enough to read the patterns of all objects in the document. -/
theorem Value.PatternsRead.of_parts {d : Value} (h : ∀ x ∈ d.parts, x.readsPattern) :
    d.PatternsRead := by
  intro fields s f hfields hs hfault
  have hread := h _ hfields.mem_parts
  simp [Value.readsPattern, hs, hfault] at hread

/-- A computation ends with a result that has a property, or with a reason that a
    schema of the document gives. -/
def Ends {α : Type} (d : Value) (P : α → Prop) : Except CompileFailure α → Prop
  | .ok a => P a
  | .error (.refused e) => Unsupported d e.problem
  | .error (.fault _) => False

section
variable {α β : Type} {d : Value} {P : α → Prop} {Q : β → Prop}

theorem Ends.bind {x : Except CompileFailure α} {f : α → Except CompileFailure β} (hx : Ends d P x)
    (hf : ∀ a, P a → Ends d Q (f a)) : Ends d Q (x >>= f) := by
  match x with
  | .ok a => exact hf a hx
  | .error (.refused e) => exact hx
  | .error (.fault f) => exact hx.elim

theorem Ends.mapM {xs : List β} {f : β → Except CompileFailure α} (h : ∀ x ∈ xs, Ends d P (f x)) :
    Ends d (fun as => as.length = xs.length ∧ ∀ a ∈ as, P a) (xs.mapM f) := by
  induction xs with
  | nil => exact ⟨rfl, List.forall_mem_nil _⟩
  | cons x xs ih =>
    obtain ⟨hx, hxs⟩ := List.forall_mem_cons.1 h
    rw [List.mapM_cons]
    refine hx.bind fun a ha => (ih hxs).bind fun as has => ?_
    exact ⟨congrArg (· + 1) has.1, List.forall_mem_cons.2 ⟨ha, has.2⟩⟩

theorem Ends.cases {x : Except CompileFailure α} (h : Ends d P x) :
    (∃ a, x = .ok a ∧ P a) ∨ ∃ e, x = .error (.refused e) ∧ Unsupported d e.problem := by
  match x with
  | .ok a => exact Or.inl ⟨a, rfl, h⟩
  | .error (.refused e) => exact Or.inr ⟨e, rfl, h⟩
  | .error (.fault f) => exact h.elim

end

/-! ## What nodes keep -/

namespace Validator

/-- The required names of an object node. -/
def required : Validator → List Value
  | object _ _ required _ => required
  | _ => []

/-- The pattern of a text node as its schema gives it. -/
def patternSource? : Validator → Option Value
  | text _ rules => rules.patternSource
  | _ => none

/-- What a node keeps of its schema is of the right kind. -/
structure WellKept (W : Validator) : Prop where
  sizeBounds : ∀ b ∈ W.sizeBounds, b.IsCount
  required : ∀ r ∈ W.required, ∃ s, r = .text s
  patternSource? : ∀ t ∈ W.patternSource?, ∃ s, t = .text s

omit [CharacterNames] in
/-- Nodes that keep nothing of this kind. -/
theorem WellKept.of_nil {W : Validator} (hb : W.sizeBounds = []) (hr : W.required = [])
    (ht : W.patternSource? = none) : W.WellKept :=
  ⟨by simp [hb], by simp [hr], by simp [ht]⟩

omit [CharacterNames] in
theorem throughout_leaf {Q : Validator → Prop} {W : Validator} (hc : W.children = []) (hW : Q W) :
    W.Throughout Q := throughout_iff.2 ⟨hW, by simp [hc]⟩

end Validator

/-! ## Computations on parts -/

section
variable {d : Value} {mode : Closedness} {Q : Validator → Prop}

theorem ends_compileBranches {nodes : List Value} {p : String} {i : Nat}
    (h : ∀ n ∈ nodes, ∀ q, Ends d Q (compileNode mode n q)) :
    Ends d (fun Vs => Vs.length = nodes.length ∧ ∀ W ∈ Vs, Q W) (compileBranches mode nodes p i) := by
  rw [compileBranches_eq_mapM, ← List.length_zipIdx (l := nodes) (i := i)]
  exact .mapM fun n hn => h n.1 (List.fst_mem_of_mem_zipIdx hn) _

theorem ends_compileTypes {fields : Fields} {types : List Value} {p : String} {i : Nat}
    (h : ∀ t ∈ types, ∀ q, Ends d Q (compileTyped mode fields t q)) :
    Ends d (fun Vs => Vs.length = types.length ∧ ∀ W ∈ Vs, Q W)
      (compileTypes mode fields types p i) := by
  rw [compileTypes_eq_mapM, ← List.length_zipIdx (l := types) (i := i)]
  exact .mapM fun t ht => h t.1 (List.fst_mem_of_mem_zipIdx ht) _

theorem ends_compileProperties {properties : Fields} {p : String}
    (h : ∀ f ∈ properties, f.1.isText ∧ ∀ q, Ends d Q (compileNode mode f.2 q)) :
    Ends d (fun Vs => ∀ q ∈ Vs, Q q.2) (compileProperties mode properties p) := by
  induction properties with
  | nil => rw [compileProperties]; exact List.forall_mem_nil _
  | cons f properties ih =>
    obtain ⟨key, n⟩ := f
    obtain ⟨⟨htext, hn⟩, hproperties⟩ := List.forall_mem_cons.1 h
    rw [compileProperties]
    cases key with
    | text name =>
      refine (hn _).bind fun V hV => (ih hproperties).bind fun Vs hVs => ?_
      exact List.forall_mem_cons.2 ⟨hV, hVs⟩
    | _ => cases htext

/-- The union of the trees of several schemas, of which there is at least one. -/
theorem ends_unionOf {nodes : List Value} {Vs : List Validator} {p : String} (hne : nodes ≠ [])
    (hVs : Vs.length = nodes.length ∧ ∀ W ∈ Vs, W.Throughout Q) (hu : Q (.union p Vs)) :
    Ends d (Throughout Q) (unionOf p Vs) := by
  match Vs with
  | [] => exact absurd (List.length_eq_zero_iff.1 hVs.1.symm) hne
  | [V] => exact hVs.2 V (by simp)
  | V :: V' :: Vs => exact throughout_iff.2 ⟨hu, hVs.2⟩

end

/-! ## Keywords -/

omit [CharacterNames] in
theorem mem_of_mem_distinct {items : List Value} : ∀ r ∈ Value.distinct items, r ∈ items := by
  have hfold : ∀ (items kept : List Value), ∀ r ∈ items.foldl (fun kept item =>
      if kept.any (fun k => k.settled? == item.settled?) then kept else kept ++ [item]) kept,
      r ∈ kept ∨ r ∈ items := by
    intro items
    induction items with
    | nil => exact fun kept r hr => Or.inl hr
    | cons item items ih =>
      intro kept r hr
      rw [List.foldl_cons] at hr
      rcases ih _ r hr with hr | hr
      · split at hr
        · exact Or.inl hr
        · rcases List.mem_append.1 hr with hr | hr
          · exact Or.inl hr
          · exact Or.inr (List.mem_cons.2 (Or.inl (List.mem_singleton.1 hr)))
      · exact Or.inr (List.mem_cons_of_mem _ hr)
  exact fun r hr => (hfold items [] r hr).resolve_left List.not_mem_nil

omit [CharacterNames] in
theorem exists_nameSet {names : List Value} (h : ∀ n ∈ names, ∃ s, n = .text s) :
    ∃ required, nameSet (.list names) = .ok required ∧ ∀ r ∈ required, ∃ s, r = .text s := by
  have hsettled : (names.all fun n => n.settled?.isSome) = true := by
    refine List.all_eq_true.2 fun n hn => ?_
    obtain ⟨s, rfl⟩ := h n hn
    rfl
  unfold nameSet
  split
  · exact ⟨[], rfl, nofun⟩
  · exact ⟨Value.distinct names, if_pos hsettled, fun r hr => h r (mem_of_mem_distinct r hr)⟩

section
variable {d : Value} {draft : Draft} {fields : Fields} {p : String}

/-- The pattern of an admitted node is read or refused. -/
theorem ends_compilePattern (hfields : d.HasSchema (.object fields)) (hp : d.PatternsRead)
    (h : draft.Admits (.object fields)) (q : String) :
    Ends d (fun _ => True) (compilePattern (fields.named "pattern") q) := by
  unfold Fields.named
  cases hpattern : fields.named? "pattern" with
  | none => trivial
  | some v =>
    obtain ⟨s, rfl⟩ := h.pattern hpattern
    rw [Option.getD_some, compilePattern]
    split
    · trivial
    · rw [Pattern.anchored_text]
      cases hread : Pattern.ofText (Pattern.anchorEnd s.toList) with
      | ok pattern => simp only [hread]; trivial
      | error e =>
        cases e with
        | refused r => simp only [hread]; exact .unreadablePattern hfields hpattern hread
        | fault f => exact absurd hread (hp fields s f hfields hpattern)

/-- The bounds that an admitted node gives by two keywords are counts. -/
theorem isCount_of_given (h : draft.Admits (.object fields)) {k k' : String}
    (hk : k ∈ Draft.sizeKeywords)
    (hk' : k' ∈ Draft.sizeKeywords) :
    ∀ b ∈ (fields.given? k).toList ++ (fields.given? k').toList, b.IsCount := by
  intro b hb
  simp only [List.mem_append, Option.mem_toList, Fields.given?_eq_some_iff] at hb
  rcases hb with hb | hb
  exacts [h.isCount hk hb.1, h.isCount hk' hb.1]

theorem ends_compileText (hfields : d.HasSchema (.object fields)) (hp : d.PatternsRead)
    (h : draft.Admits (.object fields)) : Ends d (Throughout WellKept) (compileText fields p) := by
  refine (ends_compilePattern hfields hp h _).bind fun pattern _ => throughout_leaf rfl ⟨?_, nofun, ?_⟩
  · exact isCount_of_given h (by simp [Draft.sizeKeywords]) (by simp [Draft.sizeKeywords])
  · exact fun t ht => h.pattern (Fields.given?_eq_some_iff.1 ht).1

end

/-! ## Nodes -/

section
variable {d : Value} {draft : Draft} {mode : Closedness} {fields : Fields}

/-- The property names of an admitted node are those of an object, or there are none. -/
theorem exists_declared (h : draft.Admits (.object fields)) :
    ∃ declared, fields.declared? = some declared := by
  unfold Fields.declared?
  cases hproperties : fields.named? "properties" with
  | none => exact ⟨[], rfl⟩
  | some v =>
    obtain ⟨declared, rfl⟩ := h.properties hproperties
    exact ⟨declared, rfl⟩

theorem exists_nameSet_required (h : draft.Admits (.object fields)) :
    ∃ required, nameSet (fields.named "required") = .ok required ∧ ∀ r ∈ required, ∃ s, r = .text s := by
  unfold Fields.named
  cases hrequired : fields.named? "required" with
  | none => exact ⟨[], rfl, nofun⟩
  | some v =>
    obtain ⟨names, rfl, hnames⟩ := h.required hrequired
    exact exists_nameSet hnames

section
variable (hd : d.IsJson) (hfields : d.HasSchema (.object fields)) (h : draft.Admits (.object fields))
  (ih : ∀ n, sizeOf n < sizeOf fields → d.HasSchema n → (∀ nodes, n ≠ .list nodes) →
    ∀ q, Ends d (Throughout WellKept) (compileNode mode n q))
include hfields h ih

theorem ends_array (htype : fields.MayBe "array") (p : String) :
    Ends d (Throughout WellKept) (compileTyped mode fields (.text "array") p) := by
  rw [compileTyped_array_eq]
  cases hitems : fields.named? "items" with
  | none =>
    rw [Fields.given?_eq_none_iff.2 (Or.inl hitems)]
    exact .withoutItems hfields htype hitems
  | some n =>
    -- a list is admitted by some dialects, but no schema; null is admitted by none
    by_cases hlist : ∃ nodes, n = .list nodes
    · obtain ⟨nodes, rfl⟩ := hlist
      rw [Fields.given?_eq_some_iff.2 ⟨hitems, nofun⟩]
      simp only [compileNode]
      exact .listedItems hfields htype hitems
    · rw [not_exists] at hlist
      have hne : n ≠ .null := by
        rintro rfl
        rcases (h.items hitems hlist).object_or_bool with ⟨_, heq⟩ | ⟨_, heq⟩ <;> cases heq
      rw [Fields.given?_eq_some_iff.2 ⟨hitems, hne⟩]
      refine (ih n (Fields.sizeOf_named? hitems) (.items hfields hitems) hlist _).bind fun V hV => ?_
      have hbounds : ∀ b ∈ (Validator.list p V (listRules fields)).sizeBounds, b.IsCount :=
        isCount_of_given h (by simp [Draft.sizeKeywords]) (by simp [Draft.sizeKeywords])
      exact throughout_iff.2 ⟨⟨hbounds, List.forall_mem_nil _, by simp [patternSource?]⟩,
        List.forall_mem_singleton.2 hV⟩

include hd in
theorem ends_object (p : String) :
    Ends d (Throughout WellKept) (compileTyped mode fields (.text "object") p) := by
  obtain ⟨declared, hdeclared⟩ := exists_declared h
  obtain ⟨required, hrequired, htexts⟩ := exists_nameSet_required h
  rw [compileTyped_object_eq, hdeclared, hrequired]
  have hproperties : ∀ f ∈ declared, f.1.isText ∧
      ∀ q, Ends d (Throughout WellKept) (compileNode mode f.2 q) := fun f hf => by
    have hschema : d.HasSchema f.2 := .property hfields hdeclared hf
    refine ⟨((hfields.isJson hd).declared hdeclared f hf).1, ?_⟩
    exact ih f.2 (Fields.sizeOf_declared hdeclared hf) hschema (h.declared hdeclared f hf).ne_list
  refine (ends_compileProperties hproperties).bind fun properties hVs => ?_
  refine throughout_iff.2 ⟨⟨nofun, htexts, nofun⟩, fun c hc => ?_⟩
  obtain ⟨q, hq, rfl⟩ := List.mem_map.1 hc
  exact hVs q hq

include hd in
/-- An admitted node under one of its types. -/
theorem ends_compileTyped (hp : d.PatternsRead) {name : String} (hname : name ∈ Draft.names)
    (htype : fields.MayBe name) (p : String) :
    Ends d (Throughout WellKept) (compileTyped mode fields (.text name) p) := by
  have hkind : ∀ expected, (Validator.kind p expected).Throughout WellKept := fun _ =>
    throughout_leaf rfl (.of_nil rfl rfl rfl)
  have hnumber : ∀ integer, (compileNumber fields p integer).Throughout WellKept := fun _ =>
    throughout_leaf rfl (.of_nil rfl rfl rfl)
  simp only [Draft.names, List.mem_cons, List.not_mem_nil, or_false] at hname
  rcases hname with rfl | rfl | rfl | rfl | rfl | rfl | rfl
  · exact ends_array hfields h ih htype p
  · rw [compileTyped]; exact hkind "boolean"
  · rw [compileTyped]; exact hnumber true
  · rw [compileTyped]; exact hkind "null"
  · rw [compileTyped]; exact hnumber false
  · exact ends_object hd hfields h ih p
  · rw [compileTyped]; exact ends_compileText hfields hp h

include hd in
/-- An admitted node. -/
theorem ends_compileFields (hp : d.PatternsRead) (p : String) :
    Ends d (Throughout WellKept) (compileFields mode fields p) := by
  have hunion : ∀ p Vs, WellKept (.union p Vs) := fun _ _ => .of_nil rfl rfl rfl
  have hcombined : ∀ k ∈ Draft.combiners, ∀ nodes, fields.named? k = some (.list nodes) →
      ∀ n ∈ nodes, ∀ q, Ends d (Throughout WellKept) (compileNode mode n q) := fun k hk nodes hnodes n hn => by
    refine ih n ?_ (.combined hfields hk hnodes hn) (h.combined hk hnodes n hn).ne_list
    exact Nat.lt_trans (List.sizeOf_lt_of_mem hn) (Fields.sizeOf_named?_list hnodes)
  rw [compileFields_eq]
  have hfrom := fields.reading_isFrom
  cases hr : fields.reading with
  | reference => rw [hr] at hfrom; exact .reference hfields hfrom
  | literal v => exact throughout_leaf rfl (.of_nil rfl rfl rfl)
  | choices values =>
    rw [hr] at hfrom
    obtain ⟨es, rfl⟩ := h.enum hfrom
    dsimp only
    unfold compileEnum
    split
    next heq => cases heq; exact .emptyEnum hfields hfrom
    next => exact throughout_leaf rfl (.of_nil rfl rfl rfl)
    next =>
      split
      · exact throughout_leaf rfl (.of_nil rfl rfl rfl)
      · refine throughout_iff.2 ⟨hunion _ _, fun c hc => ?_⟩
        obtain ⟨e, -, rfl⟩ := List.mem_map.1 hc
        exact throughout_leaf rfl (.of_nil rfl rfl rfl)
    next hne => exact absurd rfl (hne es)
  | union keyword nodes =>
    rw [hr] at hfrom
    have hk : keyword ∈ Draft.combiners := by
      rcases hfrom.1 with rfl | rfl <;> simp [Draft.combiners]
    obtain ⟨ns, rfl, hne⟩ := h.combiner hk hfrom.2
    simp only [compileUnion]
    refine (ends_compileBranches (hcombined keyword hk ns hfrom.2)).bind fun Vs hVs => ?_
    exact ends_unionOf hne hVs (hunion _ _)
  | all nodes =>
    rw [hr] at hfrom
    have hk : "allOf" ∈ Draft.combiners := by simp [Draft.combiners]
    obtain ⟨ns, rfl, -⟩ := h.combiner hk hfrom
    refine (ends_compileBranches (hcombined "allOf" hk ns hfrom)).bind fun Vs hVs => ?_
    exact throughout_intersectionOf hVs.2 (.of_nil rfl rfl rfl) fun _ _ => .of_nil rfl rfl rfl
  | typed type =>
    rw [hr] at hfrom
    rcases h.typed hfrom with ⟨name, hname, rfl⟩ | ⟨ts, rfl, hne, hts⟩
    · exact ends_compileTyped hd hfields h ih hp hname (Or.inl hfrom) p
    · simp only [compileTyped]
      have htypes : ∀ t ∈ ts, ∀ q, Ends d (Throughout WellKept) (compileTyped mode fields t q) :=
        fun t ht q => by
          obtain ⟨name, hname, rfl⟩ := hts t ht
          exact ends_compileTyped hd hfields h ih hp hname (Or.inr ⟨ts, hfrom, ht⟩) q
      refine (ends_compileTypes htypes).bind fun Vs hVs => ?_
      exact ends_unionOf hne hVs (hunion _ _)
  | free => exact throughout_leaf rfl (.of_nil rfl rfl rfl)

end

/-- A schema of an admitted document. -/
theorem ends_compileNode (hd : d.IsJson) (hp : d.PatternsRead) (h : draft.Admits d) : ∀ n : Value,
    d.HasSchema n → (∀ nodes, n ≠ .list nodes) →
      ∀ q, Ends d (Throughout WellKept) (compileNode mode n q)
  | .object fields, hn, _, q => by
    rw [compileNode]
    exact ends_compileFields hd hn (hn.admits h (by simp)) (fun n _ => ends_compileNode hd hp h n) hp q
  | .scalar s, hn, hlist, q => by
    rcases (hn.admits h hlist).object_or_bool with ⟨_, heq⟩ | ⟨b, heq⟩
    · cases heq
    · cases heq
      cases b <;> rw [compileNode] <;> exact throughout_leaf rfl (.of_nil rfl rfl rfl)
  | .list nodes, _, hlist, _ => absurd rfl (hlist nodes)
  | .tuple items, hn, hlist, _ => by
    rcases (hn.admits h hlist).object_or_bool with ⟨_, heq⟩ | ⟨_, heq⟩ <;> cases heq
termination_by n => sizeOf n

end

/-- **A checked document compiles, or is refused for one of five reasons.** If the
    meta-schema of a dialect, its own or any other one but draft 3, admits a JSON document
    and reading its patterns does not end with a fault, then compiling it, under every
    default and at every pointer, ends with a tree whose length and item bounds are counts,
    whose required names are texts and whose pattern sources are texts, or with a refusal
    for which a schema of the document gives the reason: a reference, an empty `enum`, an
    invalid pattern, an array without `items` or with a list of them. The other refusals
    cannot occur, and there is no fault. -/
theorem compile_of_checkSchema {d : Value} (hd : d.IsJson) {draft : Draft}
    (hdraft : draft ≠ .three) {q : String} (hs : draft.check d q = .ok ()) (hp : d.PatternsRead)
    (mode : Closedness) (p : String) :
    (∃ V, compile d mode p = .ok V ∧ ∀ W ∈ V.nodes, (∀ b ∈ W.sizeBounds, b.IsCount) ∧
      (∀ r ∈ W.required, ∃ s, r = .text s) ∧ ∀ t ∈ W.patternSource?, ∃ s, t = .text s) ∨
    ∃ e, compile d mode p = .error (.refused e) ∧ Unsupported d e.problem ∧
      (∀ type, e.problem ≠ .unsupportedType type) ∧
      e.problem ∉ [.unionNotList, .unionEmpty, .allOfNotList, .enumNotList] := by
  have h := Draft.admits_of_check hdraft hs
  have hends : Ends d (Throughout WellKept) (compile d mode p) :=
    ends_compileNode hd hp h d .self h.ne_list p
  rcases hends.cases with ⟨V, hV, hkept⟩ | ⟨e, he, hreason⟩
  · refine Or.inl ⟨V, hV, fun W hW => ?_⟩
    have hW := hkept W hW
    exact ⟨hW.sizeBounds, hW.required, hW.patternSource?⟩
  · refine Or.inr ⟨e, he, hreason, ?_⟩
    cases hproblem : e.problem with
    | reference | enumEmpty | invalidPattern | itemsMissing | notASchema => exact ⟨nofun, by simp⟩
    | _ => rw [hproblem] at hreason; cases hreason

end

/-- Nothing, or a list of at most nine codes with a dash, in draft 6. -/
def codeLists : Value :=
  .object [(.text "$schema", .text "http://json-schema.org/draft-06/schema#"),
    (.text "type", .list [.text "array", .text "null"]), (.text "minItems", .double (.zero false)),
    (.text "maxItems", .int 9), (.text "items",
      .object [(.text "type", .text "object"), (.text "required", .list [.text "code"]),
        (.text "properties", .object [(.text "code",
          .object [(.text "type", .text "string"), (.text "pattern", .text "-")])])])]

/-- Lists of two elements, each with a schema of its own. -/
def pairs : Value :=
  .object [(.text "type", .text "array"), (.text "items", .list [.bool true, .bool true])]

theorem compile_of_checkSchema_codeLists :
    (∃ V, compile codeLists .strip "#" = .ok V ∧ ∀ W ∈ V.nodes, ∀ b ∈ W.sizeBounds, b.IsCount) ∧
    ∃ e, compile pairs .strip "#" = .error (.refused e) ∧ e.pointer = "#/items" ∧
      Unsupported pairs e.problem := by
  constructor
  · have hs : Draft.six.check codeLists "#" = .ok () := Draft.check_eq_ok_iff.2 (by decide +kernel)
    have hp : codeLists.PatternsRead := .of_parts (by decide +kernel)
    rcases compile_of_checkSchema (by decide) (by decide) hs hp .strip "#" with ⟨V, hV, hkept⟩ | ⟨e, he, -⟩
    · exact ⟨V, hV, fun W hW => (hkept W hW).1⟩
    · have hcompiles : (compile codeLists .strip "#").isOk := by cbv
      rw [he] at hcompiles
      cases hcompiles
  · have hs : Draft.seven.check pairs "#" = .ok () := by cbv
    have he : compile pairs .strip "#" = .error (.refused ⟨.notASchema, "#/items"⟩) := by cbv
    rcases compile_of_checkSchema (by decide) (by decide) hs (.of_parts (by decide +kernel)) .strip "#"
      with ⟨V, hV, -⟩ | ⟨e, he', hreason, -⟩
    · rw [he] at hV; cases hV
    · rw [he] at he'; cases he'
      exact ⟨_, he, rfl, hreason⟩

end SchemaGuard
