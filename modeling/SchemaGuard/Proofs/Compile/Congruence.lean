/-
  SchemaGuard — schemas that are the same data compile to validators that say the same.

  `SameSchema n n'` says that two schemas are the same data and that meta-schemas admit
  them. Their readings are the same up to canonical forms (`SameSchema.reading`), and so
  are the rules that they give; `exists_same_compile` compares the trees by induction over
  the compiled schema.

  Main result: `compile_sameData`.
-/
import Mathlib
import SchemaGuard.Proofs.Compile.Relabeling
import SchemaGuard.Proofs.MetaSchema.Demands
import SchemaGuard.Proofs.Validator.Congruence

namespace SchemaGuard

open Validator Value

/-! ## Schemas that are the same data -/

/-- Two schemas are the same data, and each is admitted by some meta-schema. -/
structure SameSchema [CharacterNames] (n n' : Value) : Prop where
  left : n.IsJson
  right : n'.IsJson
  leftAdmitted : ∃ draft : Draft, draft.Admits n
  rightAdmitted : ∃ draft : Draft, draft.Admits n'
  canonical_eq : n.canonical = n'.canonical

namespace SameSchema

variable [CharacterNames] {n n' : Value} {fields fields' : Fields}

theorem symm (h : SameSchema n n') : SameSchema n' n :=
  ⟨h.right, h.left, h.rightAdmitted, h.leftAdmitted, h.canonical_eq.symm⟩

theorem exists_object (h : SameSchema (.object fields) n') : ∃ fields', n' = .object fields' := by
  obtain ⟨fields', rfl, -⟩ := exists_object_of_canonical_eq h.left h.right h.canonical_eq
  exact ⟨fields', rfl⟩

section
variable (h : SameSchema (.object fields) (.object fields'))
include h

theorem named? (k : String) :
    (fields.named? k).map canonical = (fields'.named? k).map canonical := by
  rw [Fields.named?_eq_lookup, Fields.named?_eq_lookup]
  exact (canonical_object_eq_iff h.left h.right).1 h.canonical_eq _

theorem exists_named? {k : String} {v : Value} (hv : fields.named? k = some v) :
    ∃ v', fields'.named? k = some v' ∧ v.canonical = v'.canonical := by
  have hk := h.named? k
  rw [hv, Option.map_some, eq_comm] at hk
  obtain ⟨v', hv', heq⟩ := Option.map_eq_some_iff.1 hk
  exact ⟨v', hv', heq.symm⟩

/-- Keywords whose values are texts have the same values. -/
theorem named?_eq {k : String} (hk : ∀ v, fields.named? k = some v → ∃ s, v = .text s) :
    fields'.named? k = fields.named? k := by
  cases hv : fields.named? k with
  | none =>
    have hnamed := h.named? k
    rwa [hv, Option.map_none, eq_comm, Option.map_eq_none_iff] at hnamed
  | some v =>
    obtain ⟨s, rfl⟩ := hk v hv
    obtain ⟨v', hv', heq⟩ := h.exists_named? hv
    rw [hv', eq_of_canonical_eq (s := .text s) nofun heq]

theorem named?_scalar_iff {k : String} {s : Scalar} (hs : ∀ n, s ≠ .number n) :
    fields.named? k = some (.scalar s) ↔ fields'.named? k = some (.scalar s) := by
  constructor
  · intro hv
    obtain ⟨v', hv', heq⟩ := h.exists_named? hv
    rw [hv', eq_of_canonical_eq hs heq]
  · intro hv
    obtain ⟨v', hv', heq⟩ := h.symm.exists_named? hv
    rw [hv', eq_of_canonical_eq hs heq]

/-! ## Keywords -/

theorem given? (k : String) :
    (fields.given? k).map canonical = (fields'.given? k).map canonical := by
  cases hg : fields.given? k with
  | some v =>
    obtain ⟨hv, hne⟩ := Fields.given?_eq_some_iff.1 hg
    obtain ⟨v', hv', heq⟩ := h.exists_named? hv
    have hne' : v' ≠ .null := by
      rintro rfl
      exact hne (eq_of_canonical_eq (s := .null) nofun heq.symm)
    rw [Fields.given?_eq_some_iff.2 ⟨hv', hne'⟩, Option.map_some, Option.map_some, heq]
  | none =>
    cases hg' : fields'.given? k with
    | none => rfl
    | some v' =>
      obtain ⟨hv', hne'⟩ := Fields.given?_eq_some_iff.1 hg'
      obtain ⟨v, hv, heq⟩ := h.symm.exists_named? hv'
      have hne : v ≠ .null := by
        rintro rfl
        exact hne' (eq_of_canonical_eq (s := .null) nofun heq.symm)
      rw [Fields.given?_eq_some_iff.2 ⟨hv, hne⟩] at hg
      cases hg

theorem numeric? (k : String) :
    (fields.numeric? k).map Number.normal = (fields'.numeric? k).map Number.normal := by
  have hnumber : ∀ v : Value, v.canonical.number? = v.number?.map Number.normal := fun v => by
    cases v with
    | scalar s => cases s <;> rfl
    | _ => simp [canonical, number?]
  have hbind : ∀ fields : Fields, (fields.numeric? k).map Number.normal =
      ((fields.named? k).map canonical).bind Value.number? := fun fields => by
    unfold Fields.numeric?
    cases fields.named? k with
    | none => rfl
    | some v => exact (hnumber v).symm
  rw [hbind, hbind, h.named?]

theorem listRules : (listRules fields).Same (listRules fields') where
  minItems := h.given? "minItems"
  maxItems := h.given? "maxItems"
  uniqueItems := by
    rw [Bool.eq_iff_iff]
    simpa [SchemaGuard.listRules] using h.named?_scalar_iff (s := .bool true) nofun

theorem compileNumber (p q : String) (integer : Bool) :
    (compileNumber fields p integer).Same (compileNumber fields' q integer) :=
  .number p q ⟨rfl, h.numeric? "minimum", h.numeric? "exclusiveMinimum", h.numeric? "maximum",
    h.numeric? "exclusiveMaximum"⟩

theorem closednessOf (mode : Closedness) : closednessOf mode fields = closednessOf mode fields' := by
  have hite : ∀ fields : Fields, SchemaGuard.closednessOf mode fields =
      if fields.named? "additionalProperties" = some (.bool false) then .strict
      else if mode = .strict then .strict
      else if fields.named? "additionalProperties" = some (.bool true) then .passthrough
      else mode := fun fields => by
    unfold SchemaGuard.closednessOf
    split <;> simp_all
  simp only [hite, h.named?_scalar_iff (s := .bool false) nofun, h.named?_scalar_iff (s := .bool true) nofun]

theorem pattern_eq : fields'.named "pattern" = fields.named "pattern" := by
  obtain ⟨draft, hadmits⟩ := h.leftAdmitted
  unfold Fields.named
  rw [h.named?_eq fun v hv => hadmits.pattern hv]

theorem required_eq : fields'.named "required" = fields.named "required" := by
  obtain ⟨draft, hadmits⟩ := h.leftAdmitted
  unfold Fields.named
  cases hv : fields.named? "required" with
  | none =>
    have hnamed := h.named? "required"
    rw [hv, Option.map_none, eq_comm, Option.map_eq_none_iff] at hnamed
    rw [hnamed]
  | some v =>
    obtain ⟨names, rfl, htexts⟩ := hadmits.required hv
    obtain ⟨v', hv', heq⟩ := h.exists_named? hv
    obtain ⟨names', rfl, hnames⟩ := exists_list_of_canonical_eq (h.right.named? hv') heq
    have hsame : names = names' := by
      rw [← List.forall₂_eq_eq_eq]
      refine ((List.forall₂_and_left _ _).2 ⟨htexts, hnames⟩).imp fun n n' hn => ?_
      obtain ⟨⟨s, rfl⟩, hn⟩ := hn
      exact (eq_of_canonical_eq (s := .text s) nofun hn).symm
    rw [hv', hsame]

theorem compileText {p q : String} {V : Validator} (hV : compileText fields p = .ok V) :
    ∃ W, compileText fields' q = .ok W ∧ V.Same W := by
  obtain ⟨pattern, hpattern, hV⟩ := bind_eq_ok_iff.1 hV
  cases hV
  have hpattern' : compilePattern (fields.named "pattern") (q ++ "/pattern") = .ok pattern := by
    rw [compilePattern_relabeled (f := fun _ => q ++ "/pattern") _ (p ++ "/pattern"), hpattern]
    rfl
  refine ⟨_, bind_eq_ok_iff.2 ⟨pattern, by rwa [h.pattern_eq], rfl⟩, .text p q ?_⟩
  refine ⟨h.given? "minLength", h.given? "maxLength", rfl, ?_⟩
  rw [Bool.eq_iff_iff]
  simpa using h.named?_scalar_iff (s := .text "date-time") nofun

end

end SameSchema

/-! ## Readings -/

/-- A reading with other values. -/
def Reading.map (f : Value → Value) : Reading → Reading
  | reference => .reference
  | literal v => .literal (f v)
  | choices values => .choices (f values)
  | union keyword nodes => .union keyword (f nodes)
  | all nodes => .all (f nodes)
  | typed type => .typed (f type)
  | free => .free

theorem Fields.map_reading_eq {fields fields' : Fields} {f : Value → Value}
    (h : ∀ k, (fields.named? k).map f = (fields'.named? k).map f) :
    fields.reading.map f = fields'.reading.map f := by
  have hhas : fields.has "$ref" = fields'.has "$ref" := by
    have := congrArg Option.isSome (h "$ref")
    simpa [Fields.has] using this
  have hrelated : Reading.Related (fun _ v w => f v = f w) fields.reading fields'.reading :=
    Fields.reading_related hhas fun k _ => by
      have hk := h k
      cases hv : fields.named? k <;> cases hw : fields'.named? k <;> rw [hv, hw] at hk
      · exact .none
      · cases hk
      · cases hk
      · exact .some (Option.some.inj hk)
  generalize fields.reading = r, fields'.reading = r' at hrelated
  cases hrelated with
  | reference | free => rfl
  | literal h | choices h | union _ h | all h | typed h => simp only [Reading.map, h]

theorem SameSchema.reading [CharacterNames] {fields fields' : Fields}
    (h : SameSchema (.object fields) (.object fields')) :
    fields.reading.map canonical = fields'.reading.map canonical := Fields.map_reading_eq h.named?

/-! ## Trees put together -/

section
variable {p q : String} {Vs Ws : List Validator}

theorem same_union (h : List.Forall₂ Same Vs Ws) : (Validator.union p Vs).Same (.union q Ws) :=
  .union p q h.length_eq fun _ hb hc => h.get hb hc

theorem exists_unionOf (h : List.Forall₂ Same Vs Ws) {V : Validator} (hV : unionOf p Vs = .ok V) :
    ∃ W, unionOf q Ws = .ok W ∧ V.Same W := by
  rcases unionOf_eq_ok_iff.1 hV with rfl | ⟨hlen, rfl⟩
  · obtain ⟨W, _, hVW, ⟨⟩, rfl⟩ := List.forall₂_cons_left_iff.1 h
    exact ⟨W, rfl, hVW⟩
  · exact ⟨_, unionOf_eq_ok_iff.2 (Or.inr ⟨h.length_eq ▸ hlen, rfl⟩), same_union h⟩

theorem same_intersectionOf (h : List.Forall₂ Same Vs Ws) :
    (intersectionOf p Vs).Same (intersectionOf q Ws) := by
  cases h with
  | nil => exact .any p q
  | @cons V W Vs Ws hVW h =>
    rw [intersectionOf, intersectionOf]
    induction h generalizing V W with
    | nil => exact hVW
    | cons hVW' _ ih => exact ih (.both p q hVW hVW')

theorem text?_eq_of_canonical_eq {v w : Value} (h : v.canonical = w.canonical) : v.text? = w.text? := by
  have htext : ∀ v w : Value, v.canonical = w.canonical → ∀ s, v.text? = some s → w.text? = some s :=
    fun v w h s hs => by
      rw [text?_eq_some_iff] at hs ⊢
      subst hs
      exact eq_of_canonical_eq (s := .text s) nofun h
  exact Option.ext fun s => ⟨htext v w h s, htext w v h.symm s⟩

section
variable {es es' : List Value} (h : List.Forall₂ (fun e e' => e.canonical = e'.canonical) es es')
include h

theorem mapM_text?_congr : es.mapM Value.text? = es'.mapM Value.text? := by
  induction h with
  | nil => rfl
  | cons he _ ih => rw [List.mapM_cons, List.mapM_cons, text?_eq_of_canonical_eq he, ih]

theorem exists_compileEnum {V : Validator} (hV : compileEnum (.list es) p = .ok V) :
    ∃ W, compileEnum (.list es') q = .ok W ∧ V.Same W := by
  have htexts := mapM_text?_congr h
  match es, es', h with
  | [], [], _ => cases hV
  | [e], [e'], .cons he .nil => cases hV; exact ⟨_, rfl, .literal p q he⟩
  | e₁ :: e₂ :: es, e₁' :: e₂' :: es', h =>
    simp only [compileEnum, ← htexts] at hV ⊢
    split at hV
    next => cases hV; exact ⟨_, rfl, .options p q _⟩
    next =>
      cases hV
      have hlen : (es'.length + 1 + 1) = es.length + 1 + 1 := h.length_eq.symm
      refine ⟨_, rfl, same_union (List.forall₂_iff_get.2 ⟨by simp [hlen], fun i hi hi' => ?_⟩)⟩
      simp only [List.get_eq_getElem, List.getElem_map, List.getElem_zipIdx]
      exact .literal _ _ (h.get (by simpa using hi) (by simpa using hi'))

end

variable {R T : Value → String → Validator → Prop}

theorem AtPlaces.exists_same {S : Value → Value → Prop} {i j : Nat} {nodes nodes' : List Value}
    (h : AtPlaces R p i nodes Vs) (hS : List.Forall₂ S nodes nodes')
    (hR : ∀ n n' a V, S n n' → R n a V → ∀ b, ∃ W, T n' b W ∧ V.Same W) :
    ∃ Ws, AtPlaces T q j nodes' Ws ∧ List.Forall₂ Same Vs Ws := by
  unfold AtPlaces at h ⊢
  induction hS generalizing i j Vs with
  | nil => cases h; exact ⟨[], .nil, .nil⟩
  | @cons n n' nodes nodes' hn _ ih =>
    rw [List.zipIdx_cons] at h ⊢
    obtain ⟨V, Vs, hV, hVs, rfl⟩ := List.forall₂_cons_left_iff.1 h
    obtain ⟨W, hW, hVW⟩ := hR n n' _ V hn hV (q ++ "/" ++ toString j)
    obtain ⟨Ws, hWs, hsame⟩ := ih hVs (j := j + 1)
    exact ⟨W :: Ws, .cons hW hWs, .cons hVW hsame⟩

/-- Properties of the same names, with trees that say the same. -/
structure SameProperties (Vs Ws : List (String × Validator)) : Prop where
  names : ∀ name, name ∈ Vs.map (·.1) ↔ name ∈ Ws.map (·.1)
  same : ∀ a ∈ Vs, ∀ b ∈ Ws, a.1 = b.1 → a.2.Same b.2

theorem AtNames.mem_names_iff {properties : Fields} {Vs : List (String × Validator)}
    (h : AtNames R p properties Vs) {name : String} :
    name ∈ Vs.map (·.1) ↔ (List.lookup (.text name) properties).isSome := by
  rw [Fields.lookup_isSome_iff, ← h.names_eq]
  simp

theorem AtNames.exists_lookup {properties : Fields} (hn : properties.keys.Nodup)
    {Vs : List (String × Validator)} (h : AtNames R p properties Vs) {a : String × Validator}
    (ha : a ∈ Vs) : ∃ n c, List.lookup (.text a.1) properties = some n ∧ R n c a.2 := by
  obtain ⟨⟨k, n⟩, hf, hk, hR⟩ := forall₂_left h.flip ha
  obtain rfl : k = .text a.1 := hk
  exact ⟨n, _, (Fields.lookup_eq_some_iff hn).2 hf, hR⟩

/-- Properties that are the same data have trees that say the same, if each of them has. -/
theorem AtNames.exists_same [CharacterNames] {mode : Closedness} {properties properties' : Fields}
    {Vs : List (String × Validator)} (h : AtNames R p properties Vs)
    (hj : IsJson (.object properties)) (hj' : IsJson (.object properties'))
    (hc : canonical (.object properties) = canonical (.object properties'))
    (hR : ∀ k n n' a V, List.lookup k properties = some n → List.lookup k properties' = some n' →
      R n a V → ∀ b, ∃ W, compileNode mode n' b = .ok W ∧ V.Same W) :
    ∃ Ws, AtNames (fun n b W => compileNode mode n b = .ok W) q properties' Ws ∧
      SameProperties Vs Ws := by
  have hkeys : ∀ k, (List.lookup k properties).isSome = (List.lookup k properties').isSome := fun k => by
    simpa using congrArg Option.isSome ((canonical_object_eq_iff hj hj').1 hc k)
  obtain ⟨hn, -, -⟩ := isJson_object.1 hj
  obtain ⟨hn', htext, -⟩ := isJson_object.1 hj'
  have hexists : ∀ f ∈ properties', ∃ b : String × Validator, f.1 = .text b.1 ∧
      compileNode mode f.2 (Pointer.child (q ++ "/properties") b.1) = .ok b.2 := by
    rintro ⟨k, n'⟩ hf
    have hk := htext k (List.mem_map_of_mem hf)
    have hlookup := (Fields.lookup_eq_some_iff hn').2 hf
    cases k with
    | text name =>
      have hname : name ∈ Vs.map (·.1) := by rw [h.mem_names_iff, hkeys, hlookup]; rfl
      obtain ⟨a, ha, rfl⟩ := List.mem_map.1 hname
      obtain ⟨n, c, hna, hV⟩ := h.exists_lookup hn ha
      obtain ⟨W, hW, -⟩ := hR _ n n' c a.2 hna hlookup hV (Pointer.child (q ++ "/properties") a.1)
      exact ⟨(a.1, W), rfl, hW⟩
    | _ => cases hk
  obtain ⟨Ws, hWs⟩ := exists_forall₂ hexists
  change AtNames (fun n b W => compileNode mode n b = .ok W) q properties' Ws at hWs
  refine ⟨Ws, hWs, fun name => ?_, fun a ha b hb hab => ?_⟩
  · rw [h.mem_names_iff, hWs.mem_names_iff, hkeys]
  · obtain ⟨n, c, hna, hV⟩ := h.exists_lookup hn ha
    obtain ⟨n', c', hnb, hW⟩ := hWs.exists_lookup hn' hb
    rw [← hab] at hnb
    obtain ⟨W, hW', hsame⟩ := hR _ n n' c a.2 hna hnb hV c'
    rw [hW] at hW'; cases hW'
    exact hsame

end

/-! ## Compiled trees -/

section
variable [CharacterNames] {fields fields' : Fields} (h : SameSchema (.object fields) (.object fields'))
include h

/-- The schemas that two nodes combine are pairwise the same data. -/
theorem SameSchema.combined {keyword : String} (hk : keyword ∈ Draft.combiners) {nodes : List Value}
    {v : Value} (hnodes : fields.named? keyword = some (.list nodes))
    (hv : fields'.named? keyword = some v) :
    ∃ nodes', v = .list nodes' ∧ List.Forall₂ SameSchema nodes nodes' := by
  obtain ⟨v', hv', heq⟩ := h.exists_named? hnodes
  obtain rfl := Option.some.inj (hv.symm.trans hv')
  obtain ⟨nodes', rfl, hsame⟩ := exists_list_of_canonical_eq (h.right.named? hv) heq
  obtain ⟨draft, hadmits⟩ := h.leftAdmitted
  obtain ⟨draft', hadmits'⟩ := h.rightAdmitted
  refine ⟨nodes', rfl, List.forall₂_iff_get.2 ⟨hsame.length_eq, fun i hi hi' => ?_⟩⟩
  exact ⟨isJson_list.1 (h.left.named? hnodes) _ (List.getElem_mem _),
    isJson_list.1 (h.right.named? hv) _ (List.getElem_mem _),
    ⟨draft, hadmits.combined hk hnodes _ (List.getElem_mem _)⟩,
    ⟨draft', hadmits'.combined hk hv _ (List.getElem_mem _)⟩, hsame.get hi hi'⟩

/-- So are the schemas of elements, unless they are lists. -/
theorem SameSchema.items {n : Value} (hn : fields.named? "items" = some n)
    (hlist : ∀ nodes, n ≠ .list nodes) :
    ∃ n', fields'.named? "items" = some n' ∧ SameSchema n n' := by
  obtain ⟨n', hn', heq⟩ := h.exists_named? hn
  obtain ⟨draft, hadmits⟩ := h.leftAdmitted
  obtain ⟨draft', hadmits'⟩ := h.rightAdmitted
  have hlist' : ∀ nodes, n' ≠ .list nodes := by
    rintro nodes rfl
    obtain ⟨nodes', rfl, -⟩ := exists_list_of_canonical_eq (h.left.named? hn) heq.symm
    exact hlist nodes' rfl
  exact ⟨n', hn', h.left.named? hn, h.right.named? hn', ⟨draft, hadmits.items hn hlist⟩,
    ⟨draft', hadmits'.items hn' hlist'⟩, heq⟩

/-- So are the declared properties. -/
theorem SameSchema.exists_declared {declared : Fields} (hd : fields.declared? = some declared) :
    ∃ declared', fields'.declared? = some declared' ∧ IsJson (.object declared) ∧
      IsJson (.object declared') ∧ canonical (.object declared) = canonical (.object declared') := by
  obtain ⟨draft, hadmits⟩ := h.leftAdmitted
  unfold Fields.declared? at hd ⊢
  cases hv : fields.named? "properties" with
  | none =>
    rw [hv] at hd; cases hd
    have hnone := h.named? "properties"
    rw [hv, Option.map_none, eq_comm, Option.map_eq_none_iff] at hnone
    exact ⟨[], by rw [hnone], by decide, by decide, rfl⟩
  | some v =>
    obtain ⟨properties, rfl⟩ := hadmits.properties hv
    rw [hv] at hd; cases hd
    obtain ⟨v', hv', heq⟩ := h.exists_named? hv
    have hj := h.left.named? hv
    have hj' := h.right.named? hv'
    obtain ⟨properties', rfl, -⟩ := exists_object_of_canonical_eq hj hj' heq
    exact ⟨properties', by rw [hv'], hj, hj', heq⟩

theorem SameSchema.property {declared declared' : Fields} (hd : fields.declared? = some declared)
    (hd' : fields'.declared? = some declared') (hj : IsJson (.object declared))
    (hj' : IsJson (.object declared'))
    (hc : canonical (.object declared) = canonical (.object declared')) {k : Scalar} {n n' : Value}
    (hn : List.lookup k declared = some n) (hn' : List.lookup k declared' = some n') :
    SameSchema n n' := by
  obtain ⟨draft, hadmits⟩ := h.leftAdmitted
  obtain ⟨draft', hadmits'⟩ := h.rightAdmitted
  have hk := (canonical_object_eq_iff hj hj').1 hc k
  rw [hn, hn', Option.map_some, Option.map_some, Option.some.injEq] at hk
  have hmem := Fields.mem_of_lookup hn
  have hmem' := Fields.mem_of_lookup hn'
  exact ⟨(isJson_object.1 hj).2.2 _ hmem, (isJson_object.1 hj').2.2 _ hmem',
    ⟨draft, hadmits.declared hd _ hmem⟩, ⟨draft', hadmits'.declared hd' _ hmem'⟩, hk⟩

end

/-- A schema that is the same data compiles to a tree that says the same. -/
def CompilesAlike [CharacterNames] (mode : Closedness) (n : Value) (V : Validator) : Prop :=
  ∀ n', SameSchema n n' → ∀ q, ∃ W, compileNode mode n' q = .ok W ∧ V.Same W

/-- So does a node that is the same data, read under the same type. -/
def CompilesAlikeUnder [CharacterNames] (mode : Closedness) (fields : Fields) (type : Value) (V : Validator) : Prop :=
  ∀ fields' type', SameSchema (.object fields) (.object fields') → type'.IsJson →
    type.canonical = type'.canonical → ∀ q, ∃ W, compileTyped mode fields' type' q = .ok W ∧ V.Same W

section
variable {mode : Closedness} {fields : Fields} {V : Validator}

/-- Object nodes that are the same data have readings that are. -/
theorem CompilesAlike.of_reading [CharacterNames] {r : Reading} (hr : fields.reading = r)
    (h : ∀ fields' : Fields, SameSchema (.object fields) (.object fields') →
      r.map canonical = fields'.reading.map canonical →
      ∀ q, ∃ W, compileFields mode fields' q = .ok W ∧ V.Same W) :
    CompilesAlike mode (.object fields) V := by
  intro n' hn q
  obtain ⟨fields', rfl⟩ := hn.exists_object
  rw [compileNode]
  exact h fields' hn (hr ▸ hn.reading) q

theorem CompilesAlikeUnder.of_text [CharacterNames] {name : String}
    (h : ∀ fields' : Fields, SameSchema (.object fields) (.object fields') →
      ∀ q, ∃ W, compileTyped mode fields' (.text name) q = .ok W ∧ V.Same W) :
    CompilesAlikeUnder mode fields (.text name) V := by
  intro fields' type' hn _ heq q
  obtain rfl := eq_of_canonical_eq (s := .text name) nofun heq
  exact h fields' hn q

end

/-- Every schema that compiles does so alike. -/
theorem compositional_compilesAlike [CharacterNames] (mode : Closedness) : Compositional mode
    (fun n _ V => (∀ nodes, n ≠ .list nodes) ∧ CompilesAlike mode n V)
    (fun fields type _ V => CompilesAlikeUnder mode fields type V) where
  bool b p := ⟨by simp, fun n' hn q => by
    obtain rfl := eq_of_canonical_eq (s := .bool b) (by simp) hn.canonical_eq
    cases b
    · exact ⟨_, by rw [compileNode], .never p q⟩
    · exact ⟨_, by rw [compileNode], .any p q⟩⟩
  literal fields p v hr := ⟨by simp, .of_reading hr fun fields' hn hreading q => by
    rw [compileFields_eq]
    cases hr' : fields'.reading <;> simp [hr', Reading.map] at hreading
    exact ⟨_, rfl, .literal p q hreading⟩⟩
  choices fields p values V hr hV := ⟨by simp, .of_reading hr fun fields' hn hreading q => by
    have hfrom := fields'.reading_isFrom
    rw [compileFields_eq]
    cases hr' : fields'.reading <;> simp [hr', Reading.map] at hreading
    rw [hr'] at hfrom
    obtain ⟨es, rfl, -⟩ := compileEnum_eq_ok hV
    obtain ⟨es', rfl, hes⟩ := exists_list_of_canonical_eq (hn.right.named? hfrom) hreading
    exact exists_compileEnum hes hV⟩
  union fields p keyword nodes Vs V hr hVs hV := ⟨by simp, .of_reading hr fun fields' hn hreading q => by
    have hfrom := fields.reading_isFrom
    have hfrom' := fields'.reading_isFrom
    rw [compileFields_eq]
    cases hr' : fields'.reading <;> simp [hr', Reading.map] at hreading
    obtain ⟨rfl, -⟩ := hreading
    rw [hr] at hfrom
    rw [hr'] at hfrom'
    have hk : keyword ∈ Draft.combiners := by rcases hfrom.1 with rfl | rfl <;> simp [Draft.combiners]
    obtain ⟨nodes', rfl, hnodes⟩ := hn.combined hk hfrom.2 hfrom'.2
    obtain ⟨Ws, hWs, hsame⟩ := hVs.exists_same hnodes
      (T := fun n b W => compileNode mode n b = .ok W) fun n n' _ V hn hV => hV.2 n' hn
    obtain ⟨W, hW, hVW⟩ := exists_unionOf hsame hV
    exact ⟨W, compileUnion_eq_ok_iff.2 ⟨nodes', Ws, rfl, hWs, hW⟩, hVW⟩⟩
  all fields p nodes Vs hr hVs := ⟨by simp, .of_reading hr fun fields' hn hreading q => by
    have hfrom := fields.reading_isFrom
    have hfrom' := fields'.reading_isFrom
    rw [compileFields_eq]
    cases hr' : fields'.reading <;> simp [hr', Reading.map] at hreading
    rw [hr] at hfrom
    rw [hr'] at hfrom'
    obtain ⟨nodes', rfl, hnodes⟩ := hn.combined (by simp [Draft.combiners]) hfrom hfrom'
    obtain ⟨Ws, hWs, hsame⟩ := hVs.exists_same hnodes
      (T := fun n b W => compileNode mode n b = .ok W) fun n n' _ V hn hV => hV.2 n' hn
    refine ⟨_, bind_eq_ok_iff.2 ⟨Ws, ?_, rfl⟩, same_intersectionOf hsame⟩
    exact compileBranches_eq_ok_iff.2 hWs⟩
  typed fields p type V hr hV := ⟨by simp, .of_reading hr fun fields' hn hreading q => by
    have hfrom := fields'.reading_isFrom
    rw [compileFields_eq]
    cases hr' : fields'.reading <;> simp [hr', Reading.map] at hreading
    rw [hr'] at hfrom
    exact hV fields' _ hn (hn.right.named? hfrom) hreading q⟩
  free fields p hr := ⟨by simp, .of_reading hr fun fields' hn hreading q => by
    rw [compileFields_eq]
    cases hr' : fields'.reading <;> simp [hr', Reading.map] at hreading
    exact ⟨_, rfl, .any p q⟩⟩
  types fields p types Vs V hVs hV := fun fields' type' hn hj heq q => by
    obtain ⟨types', rfl, htypes⟩ := exists_list_of_canonical_eq hj heq
    have hpairs : List.Forall₂ (fun t t' => t'.IsJson ∧ t.canonical = t'.canonical) types types' :=
      (((List.forall₂_and_left _ _).2 ⟨isJson_list.1 hj, htypes.flip⟩).imp fun t' t ht => ht).flip
    obtain ⟨Ws, hWs, hsame⟩ := hVs.exists_same hpairs
      (T := fun t q W => compileTyped mode fields' t q = .ok W) fun t t' _ V ht hV =>
        hV fields' t' hn ht.1 ht.2
    obtain ⟨W, hW, hVW⟩ := exists_unionOf hsame hV
    exact ⟨W, compileTyped_list_eq_ok_iff.2 ⟨Ws, hWs, hW⟩, hVW⟩
  untyped fields p := fun fields' type' hn _ heq q => by
    obtain rfl := eq_of_canonical_eq (s := .null) (by simp) heq
    exact ⟨_, by rw [compileTyped], .any p q⟩
  text fields p V hV := .of_text fun fields' hn q => by
    rw [compileTyped]
    exact hn.compileText hV
  number fields p := .of_text fun fields' hn q => ⟨_, by rw [compileTyped], hn.compileNumber p q false⟩
  integer fields p := .of_text fun fields' hn q => ⟨_, by rw [compileTyped], hn.compileNumber p q true⟩
  boolean fields p := .of_text fun fields' _ q => ⟨_, by rw [compileTyped], .kind p q (Or.inl rfl)⟩
  null fields p := .of_text fun fields' _ q => ⟨_, by rw [compileTyped], .kind p q (Or.inr rfl)⟩
  array fields p node items hnode hi := .of_text fun fields' hn q => by
    obtain ⟨node', hnode', hsame⟩ := hn.items hnode hi.1
    obtain ⟨W, hW, hVW⟩ := hi.2 node' hsame (q ++ "/items")
    have hne : node' ≠ .null := by rintro rfl; simp [compileNode, refuse] at hW
    refine ⟨_, compileTyped_array_eq_ok_iff.2 ⟨node', W, hnode', hne, hW, rfl⟩, ?_⟩
    exact .list p q hVW hn.listRules
  object fields p declared properties required hd hp hr := .of_text fun fields' hn q => by
    obtain ⟨declared', hd', hj, hj', hc⟩ := hn.exists_declared hd
    obtain ⟨properties', hp', hsame⟩ := hp.exists_same (q := q) hj hj' hc fun k n n' _ V hk hk' hV =>
      hV.2 n' (hn.property hd hd' hj hj' hc hk hk')
    have hr' : nameSet (Fields.named fields' "required") = .ok required := by rwa [hn.required_eq]
    refine ⟨_, compileTyped_object_eq_ok_iff.2
      ⟨declared', properties', required, hd', hp', hr', rfl⟩, ?_⟩
    rw [hn.closednessOf]
    exact .object p q hsame.names hsame.same

theorem SameSchema.exists_compile [CharacterNames] {s t : Value} (h : SameSchema s t) {mode : Closedness}
    {p : String} {V : Validator} (hV : compile s mode p = .ok V) (q : String) :
    ∃ W, compile t mode q = .ok W ∧ V.Same W :=
  ((compositional_compilesAlike mode).of_compileNode s p V hV).2 t h q

/-! ## Runs -/

/-- **Validators respect equality of JSON data on both sides.** Of two schemas that are the same
    data, checked by the meta-schemas of dialects but draft 3, one compiles exactly if the other
    does; and under one default the two validators come to verdicts that agree on instances that
    are the same data: both accept, with outputs that are the same data, or both reject. That
    messages cannot show an integer of a schema with more than `digitLimit` digits is left out. -/
theorem compile_sameData [CharacterNames] {s t : Value} (hs : s.IsJson) (ht : t.IsJson)
    {draft draft' : Draft} (hdraft : draft ≠ .three) (hdraft' : draft' ≠ .three) {a b : String}
    (hcs : draft.check s a = .ok ()) (hct : draft'.check t b = .ok ()) (h : s.sameData t)
    (mode : Closedness) (p q : String) :
    ((∃ V, compile s mode p = .ok V) ↔ ∃ W, compile t mode q = .ok W) ∧
    ∀ V W, compile s mode p = .ok V → compile t mode q = .ok W →
      ∀ v w : Value, v.IsJson → w.IsJson → v.InRange → w.InRange → v.sameData w →
      ∃ x y, V.run v = .ok x ∧ W.run w = .ok y ∧ x.Agrees y := by
  have hsame : SameSchema s t :=
    ⟨hs, ht, ⟨_, Draft.admits_of_check hdraft hcs⟩, ⟨_, Draft.admits_of_check hdraft' hct⟩,
      (sameData_iff _ _).1 h⟩
  refine ⟨⟨?_, ?_⟩, fun V W hV hW v w hv hw hrv hrw hvw => ?_⟩
  · rintro ⟨V, hV⟩
    obtain ⟨W, hW, -⟩ := hsame.exists_compile hV q
    exact ⟨W, hW⟩
  · rintro ⟨W, hW⟩
    obtain ⟨V, hV, -⟩ := hsame.symm.exists_compile hW p
    exact ⟨V, hV⟩
  · obtain ⟨W', hW', hVW⟩ := hsame.exists_compile hV q
    obtain rfl : W' = W := Except.ok.inj (hW'.symm.trans hW)
    exact hVW.exists_run ⟨distinctNames_compile hs hV, numericSizes_of_check hdraft hcs hV⟩
      ⟨distinctNames_compile ht hW, numericSizes_of_check hdraft' hct hW⟩
      ⟨hv, hw, hrv, hrw, (sameData_iff _ _).1 hvw⟩

/-- A rate of at least `two` and different codes, `one` or `"x"`. -/
def tariff (one two : Value) : Value :=
  .object [(.text "type", .text "object"),
    (.text "properties", .object [
      (.text "rate", .object [(.text "type", .text "number"), (.text "minimum", two)]),
      (.text "codes", .object [(.text "type", .text "array"), (.text "uniqueItems", .bool true),
        (.text "items", .object [(.text "enum", .list [one, .text "x"])])])]),
    (.text "required", .list [.text "rate"])]

/-- The same with its fields in another order. -/
def reorderedTariff (one two : Value) : Value :=
  .object [(.text "required", .list [.text "rate"]),
    (.text "properties", .object [
      (.text "codes", .object [(.text "items", .object [(.text "enum", .list [one, .text "x"])]),
        (.text "type", .text "array"), (.text "uniqueItems", .bool true)]),
      (.text "rate", .object [(.text "minimum", two), (.text "type", .text "number")])]),
    (.text "type", .text "object")]

/-- A rate with two codes and a note that no tariff declares. -/
def charged (rate code : Value) : Value :=
  .object [(.text "rate", rate), (.text "note", .null), (.text "codes", .list [.text "x", code])]

theorem compile_sameData_tariff : ∃ V W,
    compile (tariff (.int 1) (.int 2)) .strip "#" = .ok V ∧
    compile (reorderedTariff (.double (.finite false 1023 0)) (.double (.finite false 1024 0)))
      .strip "#" = .ok W ∧
    ∃ x y, V.run (charged (.int 2) (.double (.finite false 1023 0))) = .ok x ∧
      W.run (charged (.double (.finite false 1024 0)) (.int 1)) = .ok y ∧ x.Agrees y := by
  have hone : (Number.double (.finite false 1023 0)).normal = .int 1 := by decide +kernel
  have htwo : (Number.double (.finite false 1024 0)).normal = .int 2 := by decide +kernel
  have hreordered : (tariff (.int 1) (.int 2)).canonical =
      (reorderedTariff (.int 1) (.int 2)).canonical :=
    Alike.canonical_eq (by decide) (by decide) (by decide)
  have hsame : (tariff (.int 1) (.int 2)).sameData
      (reorderedTariff (.double (.finite false 1023 0)) (.double (.finite false 1024 0))) := by
    rw [sameData_iff, hreordered]
    simp only [reorderedTariff, canonical, canonicalItems, canonicalFields, hone, htwo, Number.normal_int]
  have hcharged : (charged (.int 2) (.double (.finite false 1023 0))).sameData
      (charged (.double (.finite false 1024 0)) (.int 1)) := by
    rw [sameData_iff]
    simp only [charged, canonical, canonicalItems, canonicalFields, hone, htwo, Number.normal_int]
  obtain ⟨hiff, hruns⟩ := compile_sameData (by decide) (by decide) (by decide : Draft.seven ≠ .three)
    (by decide : Draft.seven ≠ .three) (a := "#") (b := "#") (by cbv) (by cbv) hsame .strip "#" "#"
  obtain ⟨V, hV⟩ : ∃ V, compile (tariff (.int 1) (.int 2)) .strip "#" = .ok V := ⟨_, by cbv⟩
  obtain ⟨W, hW⟩ := hiff.1 ⟨V, hV⟩
  exact ⟨V, W, hV, hW, hruns V W hV hW _ _ (by decide) (by decide) (by decide +kernel) (by decide +kernel)
    hcharged⟩

end SchemaGuard
