/-
  SchemaGuard — how schema nodes are read.

  * `Fields.reading` is the reading of an object node, by its first discriminating
    keyword; `compileFields_eq` compiles a node by its reading;
  * `compile…_eq_ok_iff` says for each reading when compiling succeeds;
  * `Compositional` names what passes from the parts of a schema to the whole, and
    `Compositional.of_compileNode` is induction over compiled schemas: `P` is to hold
    of every node that compiles, `T` of every node read under one type.
-/
import SchemaGuard.Compile
import SchemaGuard.Proofs.Validator.Acceptance
import SchemaGuard.Proofs.Value.Json

namespace SchemaGuard

/-! ## Readings -/

/-- What an object node is read as. -/
inductive Reading where
  | reference
  /-- by `const` -/
  | literal (expected : Value)
  /-- by `enum` -/
  | choices (values : Value)
  /-- by `anyOf` or `oneOf`, which is the keyword -/
  | union (keyword : String) (nodes : Value)
  /-- by `allOf` -/
  | all (nodes : Value)
  /-- by `type` -/
  | typed (type : Value)
  /-- no keyword says more -/
  | free

/-- The reading of a node, by its first discriminating keyword. -/
def Fields.reading (fields : Fields) : Reading :=
  if fields.has "$ref" then .reference
  else
    match fields.named? "const", fields.named? "enum", fields.named? "anyOf", fields.named? "oneOf",
      fields.named? "allOf", fields.named? "type" with
    | some v, _, _, _, _, _ => .literal v
    | none, some values, _, _, _, _ => .choices values
    | none, none, some nodes, _, _, _ => .union "anyOf" nodes
    | none, none, none, some nodes, _, _ => .union "oneOf" nodes
    | none, none, none, none, some nodes, _ => .all nodes
    | none, none, none, none, none, some type => .typed type
    | none, none, none, none, none, none => .free

/-- Where the values of a reading come from. -/
def Reading.IsFrom (fields : Fields) : Reading → Prop
  | reference => fields.has "$ref"
  | literal v => fields.named? "const" = some v
  | choices values => fields.named? "enum" = some values
  | union keyword nodes =>
    (keyword = "anyOf" ∨ keyword = "oneOf") ∧ fields.named? keyword = some nodes
  | all nodes => fields.named? "allOf" = some nodes
  | typed type => fields.named? "type" = some type
  | free => fields.named? "type" = none

theorem Fields.reading_isFrom (fields : Fields) : fields.reading.IsFrom fields := by
  unfold reading
  split
  next h => exact h
  next => split <;> simp_all [Reading.IsFrom]

/-- Readings by the same keyword, with related values. -/
inductive Reading.Related (R : String → Value → Value → Prop) : Reading → Reading → Prop where
  | reference : Related R .reference .reference
  | literal {v w : Value} (h : R "const" v w) : Related R (.literal v) (.literal w)
  | choices {v w : Value} (h : R "enum" v w) : Related R (.choices v) (.choices w)
  | union {keyword : String} {v w : Value} (hk : keyword = "anyOf" ∨ keyword = "oneOf")
      (h : R keyword v w) : Related R (.union keyword v) (.union keyword w)
  | all {v w : Value} (h : R "allOf" v w) : Related R (.all v) (.all w)
  | typed {v w : Value} (h : R "type" v w) : Related R (.typed v) (.typed w)
  | free : Related R .free .free

/-- Nodes with related values under each discriminating keyword have related readings. -/
theorem Fields.reading_related {R : String → Value → Value → Prop} {fields fields' : Fields}
    (hhas : fields.has "$ref" = fields'.has "$ref")
    (h : ∀ k ∈ ["const", "enum", "anyOf", "oneOf", "allOf", "type"],
      Option.Rel (R k) (fields.named? k) (fields'.named? k)) :
    Reading.Related R fields.reading fields'.reading := by
  have hkeyword : ∀ k ∈ ["const", "enum", "anyOf", "oneOf", "allOf", "type"],
      (fields.named? k = none ∧ fields'.named? k = none) ∨
        ∃ v w, fields.named? k = some v ∧ fields'.named? k = some w ∧ R k v w := fun k hk => by
    have hrel := h k hk
    generalize fields.named? k = o, fields'.named? k = o' at hrel
    cases hrel with
    | none => exact Or.inl ⟨rfl, rfl⟩
    | some hvw => exact Or.inr ⟨_, _, rfl, rfl, hvw⟩
  unfold Fields.reading
  rw [hhas]
  split
  · exact .reference
  -- the keywords in their order: the first one that is there decides on both sides
  rcases hkeyword "const" (by simp) with ⟨h₁, h₁'⟩ | ⟨v, w, h₁, h₁', hvw⟩
  case inr => simp only [h₁, h₁']; exact .literal hvw
  rcases hkeyword "enum" (by simp) with ⟨h₂, h₂'⟩ | ⟨v, w, h₂, h₂', hvw⟩
  case inr => simp only [h₁, h₁', h₂, h₂']; exact .choices hvw
  rcases hkeyword "anyOf" (by simp) with ⟨h₃, h₃'⟩ | ⟨v, w, h₃, h₃', hvw⟩
  case inr => simp only [h₁, h₁', h₂, h₂', h₃, h₃']; exact .union (Or.inl rfl) hvw
  rcases hkeyword "oneOf" (by simp) with ⟨h₄, h₄'⟩ | ⟨v, w, h₄, h₄', hvw⟩
  case inr => simp only [h₁, h₁', h₂, h₂', h₃, h₃', h₄, h₄']; exact .union (Or.inr rfl) hvw
  rcases hkeyword "allOf" (by simp) with ⟨h₅, h₅'⟩ | ⟨v, w, h₅, h₅', hvw⟩
  case inr => simp only [h₁, h₁', h₂, h₂', h₃, h₃', h₄, h₄', h₅, h₅']; exact .all hvw
  simp only [h₁, h₁', h₂, h₂', h₃, h₃', h₄, h₄', h₅, h₅']
  rcases hkeyword "type" (by simp) with ⟨h₆, h₆'⟩ | ⟨v, w, h₆, h₆', hvw⟩
  · rw [h₆, h₆']; exact .free
  · rw [h₆, h₆']; exact .typed hvw

/-- A node is compiled by its reading. -/
theorem compileFields_eq [CharacterNames] (mode : Closedness) (fields : Fields) (p : String) :
    compileFields mode fields p = match fields.reading with
      | .reference => refuse .reference p
      | .literal v => .ok (.literal p v)
      | .choices values => compileEnum values p
      | .union keyword nodes => compileUnion mode nodes (p ++ "/" ++ keyword)
      | .all (.list nodes) => do
        return intersectionOf (p ++ "/allOf") (← compileBranches mode nodes (p ++ "/allOf") 0)
      | .all _ => refuse .allOfNotList (p ++ "/allOf")
      | .typed type => compileTyped mode fields type p
      | .free => .ok (.any p) := by
  rw [compileFields]
  unfold Fields.reading
  split
  next => rfl
  next =>
    split
    next h => simp [h]
    next h₁ =>
    split
    next h => simp [h₁, h]
    next h₂ =>
    split
    next h => simp [h₁, h₂, h, String.append_assoc]
    next h₃ =>
    split
    next h => simp [h₁, h₂, h₃, h, String.append_assoc]
    next h₄ =>
    split
    next h => simp [h₁, h₂, h₃, h₄, h]
    next hl h => simp only [h₁, h₂, h₃, h₄, h]
    next h₅ =>
    split
    next h => simp [h₁, h₂, h₃, h₄, h₅, h]
    next h => simp [h₁, h₂, h₃, h₄, h₅, h]

theorem compileNode_eq_ok [CharacterNames] {mode : Closedness} {node : Value} {p : String}
    {V : Validator}
    (h : compileNode mode node p = .ok V) :
    (∃ b, node = .bool b ∧ V = if b then .any p else .never p) ∨
      ∃ fields, node = .object fields ∧ compileFields mode fields p = .ok V := by
  rw [compileNode.eq_def] at h
  split at h
  next => cases h; exact Or.inl ⟨true, rfl, rfl⟩
  next => cases h; exact Or.inl ⟨false, rfl, rfl⟩
  next fields => exact Or.inr ⟨fields, rfl, h⟩
  next => cases h

/-! ## Parts of a node -/

/-- `R` relates schemas to validators at the same places, with the pointers
    `p/i`, `p/(i + 1)` and so on. -/
def AtPlaces (R : Value → String → Validator → Prop) (p : String) (i : Nat) (nodes : List Value)
    (Vs : List Validator) : Prop :=
  List.Forall₂ (fun n V => R n.1 (p ++ "/" ++ toString n.2) V) (nodes.zipIdx i) Vs

/-- `R` relates properties to validators of the same names. -/
def AtNames (R : Value → String → Validator → Prop) (p : String) (properties : Fields)
    (Vs : List (String × Validator)) : Prop :=
  List.Forall₂ (fun f q => f.1 = .text q.1 ∧ R f.2 (Pointer.child (p ++ "/properties") q.1) q.2)
    properties Vs

section
variable {mode : Closedness} {fields : Fields} {p : String} {V : Validator}
  {R : Value → String → Validator → Prop}

theorem AtPlaces.imp {R' : Value → String → Validator → Prop} {i : Nat} {nodes : List Value}
    {Vs : List Validator} (h : AtPlaces R p i nodes Vs)
    (hR : ∀ n ∈ nodes, ∀ p V, R n p V → R' n p V) : AtPlaces R' p i nodes Vs := by
  have hmem : ∀ n ∈ nodes.zipIdx i, n.1 ∈ nodes := fun n hn => List.fst_mem_of_mem_zipIdx hn
  exact ((List.forall₂_and_left _ _).2 ⟨hmem, h⟩).imp fun n V hn => hR n.1 hn.1 _ V hn.2

theorem AtNames.imp {R' : Value → String → Validator → Prop} {properties : Fields}
    {Vs : List (String × Validator)} (h : AtNames R p properties Vs)
    (hR : ∀ f ∈ properties, ∀ p V, R f.2 p V → R' f.2 p V) : AtNames R' p properties Vs :=
  ((List.forall₂_and_left _ _).2 ⟨fun _ hf => hf, h⟩).imp fun f q hf =>
    ⟨hf.2.1, hR f hf.1 _ q.2 hf.2.2⟩

/-- The schemas in a list are compiled one by one, each at its place. -/
theorem compileBranches_eq_mapM [CharacterNames] (nodes : List Value) (i : Nat) :
    compileBranches mode nodes p i =
      (nodes.zipIdx i).mapM fun n => compileNode mode n.1 (p ++ "/" ++ toString n.2) := by
  induction nodes generalizing i with
  | nil => rw [compileBranches]; rfl
  | cons n nodes ih => rw [compileBranches, ih, List.zipIdx_cons, List.mapM_cons]

/-- So is a node under each type in a list. -/
theorem compileTypes_eq_mapM [CharacterNames] (types : List Value) (i : Nat) :
    compileTypes mode fields types p i =
      (types.zipIdx i).mapM fun t => compileTyped mode fields t.1 (p ++ "/" ++ toString t.2) := by
  induction types generalizing i with
  | nil => rw [compileTypes]; rfl
  | cons t types ih => rw [compileTypes, ih, List.zipIdx_cons, List.mapM_cons]

theorem compileBranches_eq_ok_iff [CharacterNames] {nodes : List Value} {i : Nat}
    {Vs : List Validator} :
    compileBranches mode nodes p i = .ok Vs ↔
      AtPlaces (fun n q V => compileNode mode n q = .ok V) p i nodes Vs := by
  rw [compileBranches_eq_mapM]
  exact mapM_eq_ok_iff

theorem compileTypes_eq_ok_iff [CharacterNames] {types : List Value} {i : Nat}
    {Vs : List Validator} :
    compileTypes mode fields types p i = .ok Vs ↔
      AtPlaces (fun t q V => compileTyped mode fields t q = .ok V) p i types Vs := by
  rw [compileTypes_eq_mapM]
  exact mapM_eq_ok_iff

theorem propertyName_eq_ok_iff {key : Scalar} {name : String} :
    propertyName key = .ok name ↔ key = .text name := by
  unfold propertyName
  split <;> simp_all

theorem compileProperties_eq_ok_iff [CharacterNames] {properties : Fields} {Vs : List
    (String × Validator)} :
    compileProperties mode properties p = .ok Vs ↔
      AtNames (fun n q V => compileNode mode n q = .ok V) p properties Vs := by
  unfold AtNames
  induction properties generalizing Vs with
  | nil => rw [compileProperties]; simp [eq_comm]
  | cons f properties ih =>
    obtain ⟨key, n⟩ := f
    rw [compileProperties, List.forall₂_cons_left_iff]
    simp only [bind_eq_ok_iff, ih, pure, Except.pure, Except.ok.injEq, propertyName_eq_ok_iff]
    constructor
    · rintro ⟨name, rfl, W, hW, Ws, hWs, rfl⟩; exact ⟨(name, W), Ws, ⟨rfl, hW⟩, hWs, rfl⟩
    · rintro ⟨⟨name, W⟩, Ws, ⟨rfl, hW⟩, hWs, rfl⟩; exact ⟨name, rfl, W, hW, Ws, hWs, rfl⟩

/-- A union of one branch is the branch. -/
theorem unionOf_eq_ok_iff {Vs : List Validator} :
    unionOf p Vs = .ok V ↔ Vs = [V] ∨ 2 ≤ Vs.length ∧ V = .union p Vs := by
  match Vs with
  | [] => simp [unionOf, refuse]
  | [W] => simp [unionOf]
  | W :: W' :: Ws => simp [unionOf, eq_comm]

theorem mapM_text?_eq_some_iff {vs : List Value} {texts : List String} :
    vs.mapM Value.text? = some texts ↔ vs = texts.map Value.text := by
  induction vs generalizing texts with
  | nil => cases texts <;> simp
  | cons v vs ih =>
    simp only [List.mapM_cons, bind, Option.bind_eq_some_iff, pure, Option.some.injEq, ih,
      Validator.text?_eq_some_iff]
    constructor
    · rintro ⟨s, rfl, texts, rfl, rfl⟩; rfl
    · intro h
      cases texts with
      | nil => cases h
      | cons s texts => obtain ⟨rfl, rfl⟩ := List.cons.inj h; exact ⟨s, rfl, texts, rfl, rfl⟩

theorem compileEnum_eq_ok {values : Value} (h : compileEnum values p = .ok V) :
    ∃ es, values = .list es ∧ es ≠ [] ∧
      ((∃ e, es = [e] ∧ V = .literal p e) ∨
        (∃ texts, es = texts.map Value.text ∧ V = .options p texts) ∨
        2 ≤ es.length ∧
          V = .union p (es.zipIdx.map fun e => .literal (p ++ "/enum/" ++ toString e.2) e.1)) := by
  unfold compileEnum at h
  split at h
  next => cases h
  next e => cases h; exact ⟨_, rfl, by simp, Or.inl ⟨e, rfl, rfl⟩⟩
  next es hne hsingle =>
    refine ⟨es, rfl, fun he => hne he, Or.inr ?_⟩
    split at h
    next texts ht => cases h; exact Or.inl ⟨texts, mapM_text?_eq_some_iff.1 ht, rfl⟩
    next =>
      cases h
      match es with
      | [] => exact absurd rfl hne
      | [e] => exact absurd rfl (hsingle e)
      | _ :: _ :: _ => exact Or.inr ⟨by simp, rfl⟩
  next => cases h

/-- The pattern of a text is what its anchored form is read as; an empty text gives none. -/
theorem compilePattern_text [CharacterNames] (s q : String) : compilePattern (.text s) q =
    match Pattern.ofText (Pattern.anchorEnd s.toList) with
    | .ok pattern => .ok (if s = "" then none else some pattern)
    | .error (.refused r) => refuse (.invalidPattern (.text s) (r.message (Pattern.anchorEnd s.toList))) q
    | .error (.fault f) => .error (.fault f) := by
  rw [compilePattern, Pattern.anchored_text]
  by_cases hempty : s = ""
  · subst hempty
    have hreads : (Pattern.ofText (Pattern.anchorEnd "".toList)).isOk := by rfl
    cases hread : Pattern.ofText (Pattern.anchorEnd "".toList) with
    | ok pattern => rfl
    | error e => rw [hread] at hreads; cases hreads
  · rw [if_neg (by simpa [Value.isVacant] using hempty)]
    dsimp only
    rcases Pattern.ofText (Pattern.anchorEnd s.toList) with (r | f) | pattern
    · rfl
    · rfl
    · exact congrArg Except.ok (if_neg hempty).symm

/-! ## Nodes under one type -/

/-- The properties that a node declares; vacant values declare none. -/
def Fields.declared? (fields : Fields) : Option Fields :=
  match fields.named? "properties" with
  | none => some []
  | some (.object properties) => some properties
  | some v => if v.isVacant then some [] else none

theorem Fields.given?_eq_some_iff {keyword : String} {v : Value} :
    fields.given? keyword = some v ↔ fields.named? keyword = some v ∧ v ≠ .null := by
  unfold Fields.given?
  split
  next h => simp only [reduceCtorEq, h, Option.some.injEq, false_iff, not_and, not_not]; exact Eq.symm
  next hne =>
    refine ⟨fun h => ⟨h, ?_⟩, And.left⟩
    rintro rfl
    exact hne h

theorem Fields.given?_eq_none_iff {keyword : String} :
    fields.given? keyword = none ↔
      fields.named? keyword = none ∨ fields.named? keyword = some .null := by
  unfold Fields.given?
  split
  next h => simp [h]
  next hne => exact ⟨Or.inl, fun h => h.resolve_right hne⟩

theorem compileTyped_array_eq [CharacterNames] : compileTyped mode fields (.text "array") p =
    match fields.given? "items" with
    | none => refuse .itemsMissing p
    | some node => (do
      return .list p (← compileNode mode node (p ++ "/items")) (listRules fields)) := by
  rw [compileTyped]
  split
  next h => rw [Fields.given?_eq_none_iff.2 (Or.inl h)]
  next h => rw [Fields.given?_eq_none_iff.2 (Or.inr h)]
  next node hne h => rw [Fields.given?_eq_some_iff.2 ⟨h, hne⟩]

theorem compileTyped_array_eq_ok_iff [CharacterNames] :
    compileTyped mode fields (.text "array") p = .ok V ↔ ∃ node items,
      fields.named? "items" = some node ∧ node ≠ .null ∧
        compileNode mode node (p ++ "/items") = .ok items ∧ V = .list p items (listRules fields) := by
  simp only [← and_assoc (a := fields.named? "items" = _), ← Fields.given?_eq_some_iff]
  rw [compileTyped_array_eq]
  split
  next h => simp [h, refuse]
  next node h =>
    simp only [bind_eq_ok_iff, pure, Except.pure, Except.ok.injEq, h, Option.some.injEq]
    constructor
    · rintro ⟨items, hi, rfl⟩; exact ⟨node, items, rfl, hi, rfl⟩
    · rintro ⟨_, items, rfl, hi, rfl⟩; exact ⟨items, hi, rfl⟩

theorem compileTyped_object_eq [CharacterNames] : compileTyped mode fields (.text "object") p =
    match fields.declared? with
    | none => .error (.fault .propertiesNotObject)
    | some declared => (do
      let properties ← compileProperties mode declared p
      match nameSet (fields.named "required") with
      | .ok required => return .object p properties required (closednessOf mode fields)
      | .error f => .error (.fault f)) := by
  rw [compileTyped]
  split
  next h =>
    simp only [Fields.declared?, h, compileProperties]; rfl
  next declared h =>
    have hdeclared : fields.declared? = some declared := by simp only [Fields.declared?, h]
    exact hdeclared ▸ rfl
  next v hv h =>
    simp only [Fields.declared?, h]
    split
    · simp only [compileProperties]; rfl
    · rfl

theorem compileTyped_object_eq_ok_iff [CharacterNames] :
    compileTyped mode fields (.text "object") p = .ok V ↔ ∃ declared properties required,
      fields.declared? = some declared ∧
        AtNames (fun n q W => compileNode mode n q = .ok W) p declared properties ∧
        nameSet (fields.named "required") = .ok required ∧
        V = .object p properties required (closednessOf mode fields) := by
  rw [compileTyped_object_eq]
  cases fields.declared? with
  | none => simp
  | some declared =>
    simp only [bind_eq_ok_iff, compileProperties_eq_ok_iff, Option.some.injEq]
    constructor
    · rintro ⟨properties, hps, hV⟩
      split at hV
      next required hr => cases hV; exact ⟨declared, properties, required, rfl, hps, hr, rfl⟩
      next => cases hV
    · rintro ⟨_, properties, required, rfl, hps, hr, rfl⟩
      exact ⟨properties, hps, by rw [hr]; rfl⟩

theorem compileTyped_list_eq_ok_iff [CharacterNames] {types : List Value} :
    compileTyped mode fields (.list types) p = .ok V ↔ ∃ Vs,
      AtPlaces (fun t q W => compileTyped mode fields t q = .ok W) (p ++ "/type") 0 types Vs ∧
        unionOf (p ++ "/type") Vs = .ok V := by
  rw [compileTyped]
  simp only [bind_eq_ok_iff, compileTypes_eq_ok_iff]

theorem compileUnion_eq_ok_iff [CharacterNames] {nodes : Value} :
    compileUnion mode nodes p = .ok V ↔ ∃ ns Vs, nodes = .list ns ∧
      AtPlaces (fun n q W => compileNode mode n q = .ok W) p 0 ns Vs ∧ unionOf p Vs = .ok V := by
  cases nodes with
  | list ns =>
    rw [compileUnion]
    simp only [bind_eq_ok_iff, compileBranches_eq_ok_iff]
    constructor
    · rintro ⟨Vs, hVs, hV⟩; exact ⟨ns, Vs, rfl, hVs, hV⟩
    · rintro ⟨_, Vs, ⟨⟩, hVs, hV⟩; exact ⟨Vs, hVs, hV⟩
  | _ => simp [compileUnion, refuse]

end

/-! ## Required names -/

theorem settled?_eq_text_iff {v : Value} {name : String} :
    v.settled? = some (.text name) ↔ v = .text name := by
  cases v with
  | scalar x => cases x <;> simp [Value.settled?]
  | tuple items => simp [Value.settled?]
  | _ => simp [Value.settled?]

theorem mem_distinct_text_iff {items : List Value} {name : String} :
    .text name ∈ Value.distinct items ↔ .text name ∈ items := by
  have hfold : ∀ (items kept : List Value),
      .text name ∈ items.foldl (fun kept item =>
        if kept.any (fun k => k.settled? == item.settled?) then kept else kept ++ [item]) kept ↔
      .text name ∈ kept ∨ .text name ∈ items := by
    intro items
    induction items with
    | nil => simp
    | cons item items ih =>
      intro kept
      rw [List.foldl_cons, ih]
      split
      next h =>
        obtain ⟨k, hk, heq⟩ := List.any_eq_true.1 h
        rw [beq_iff_eq] at heq
        have : .text name = item → .text name ∈ kept := by
          rintro rfl
          rw [settled?_eq_text_iff.2 rfl, settled?_eq_text_iff] at heq
          rwa [← heq]
        simp only [List.mem_cons]
        tauto
      next => simp [or_assoc]
  exact (hfold items []).trans (by simp)

theorem mem_nameSet_iff {names required : List Value} (h : nameSet (.list names) = .ok required)
    {name : String} : .text name ∈ required ↔ .text name ∈ names := by
  unfold nameSet at h
  dsimp only at h
  split at h
  next hv =>
    cases h
    simp only [Value.isVacant, List.isEmpty_iff] at hv
    simp [hv]
  next =>
    split at h
    next => cases h; exact mem_distinct_text_iff
    next => cases h

/-! ## Induction over compiled schemas -/

/-- `P` of nodes and `T` of nodes read under a type pass from the parts of a
    schema to the whole. -/
structure Compositional [CharacterNames] (mode : Closedness) (P : Value → String → Validator → Prop)
    (T : Fields → Value → String → Validator → Prop) : Prop where
  bool (b : Bool) (p : String) : P (.bool b) p (if b then .any p else .never p)
  literal (fields : Fields) (p : String) (v : Value) (hr : fields.reading = .literal v) :
    P (.object fields) p (.literal p v)
  choices (fields : Fields) (p : String) (values : Value) (V : Validator)
    (hr : fields.reading = .choices values) (hV : compileEnum values p = .ok V) :
    P (.object fields) p V
  union (fields : Fields) (p keyword : String) (nodes : List Value) (Vs : List Validator)
    (V : Validator) (hr : fields.reading = .union keyword (.list nodes))
    (hVs : AtPlaces P (p ++ "/" ++ keyword) 0 nodes Vs)
    (hV : unionOf (p ++ "/" ++ keyword) Vs = .ok V) : P (.object fields) p V
  all (fields : Fields) (p : String) (nodes : List Value) (Vs : List Validator)
    (hr : fields.reading = .all (.list nodes)) (hVs : AtPlaces P (p ++ "/allOf") 0 nodes Vs) :
    P (.object fields) p (intersectionOf (p ++ "/allOf") Vs)
  typed (fields : Fields) (p : String) (type : Value) (V : Validator)
    (hr : fields.reading = .typed type) (hV : T fields type p V) : P (.object fields) p V
  free (fields : Fields) (p : String) (hr : fields.reading = .free) : P (.object fields) p (.any p)
  types (fields : Fields) (p : String) (types : List Value) (Vs : List Validator) (V : Validator)
    (hVs : AtPlaces (T fields) (p ++ "/type") 0 types Vs) (hV : unionOf (p ++ "/type") Vs = .ok V) :
    T fields (.list types) p V
  untyped (fields : Fields) (p : String) : T fields .null p (.any p)
  text (fields : Fields) (p : String) (V : Validator) (hV : compileText fields p = .ok V) :
    T fields (.text "string") p V
  number (fields : Fields) (p : String) :
    T fields (.text "number") p (compileNumber fields p false)
  integer (fields : Fields) (p : String) :
    T fields (.text "integer") p (compileNumber fields p true)
  boolean (fields : Fields) (p : String) : T fields (.text "boolean") p (.kind p "boolean")
  null (fields : Fields) (p : String) : T fields (.text "null") p (.kind p "null")
  array (fields : Fields) (p : String) (node : Value) (items : Validator)
    (hn : fields.named? "items" = some node) (hi : P node (p ++ "/items") items) :
    T fields (.text "array") p (.list p items (listRules fields))
  object (fields : Fields) (p : String) (declared : Fields) (properties : List (String × Validator))
    (required : List Value) (hd : fields.declared? = some declared)
    (hp : AtNames P p declared properties) (hr : nameSet (fields.named "required") = .ok required) :
    T fields (.text "object") p (.object p properties required (closednessOf mode fields))

section
variable {mode : Closedness} {P : Value → String → Validator → Prop}
  {T : Fields → Value → String → Validator → Prop}

theorem Fields.sizeOf_declared {fields declared : Fields} (h : fields.declared? = some declared)
    {f : Scalar × Value} (hf : f ∈ declared) : sizeOf f.2 < sizeOf fields := by
  unfold Fields.declared? at h
  split at h
  next => cases h; cases hf
  next heq =>
    cases h
    have := Fields.sizeOf_named?_object heq
    have := List.sizeOf_lt_of_mem hf
    cases f; simp only [Prod.mk.sizeOf_spec] at this ⊢; omega
  next => split at h <;> cases h; cases hf

theorem Compositional.of_compileTyped [CharacterNames] (h : Compositional mode P T)
    {fields : Fields}
    (ih : ∀ n, sizeOf n < sizeOf fields → ∀ q W, compileNode mode n q = .ok W → P n q W) (type : Value) :
    ∀ p V, compileTyped mode fields type p = .ok V → T fields type p V := by
  induction type with
  | list types iht =>
    intro p V hV
    obtain ⟨Vs, hVs, hV⟩ := compileTyped_list_eq_ok_iff.1 hV
    exact h.types fields p types Vs V (hVs.imp fun t ht => iht t ht) hV
  | tuple types => intro p V hV; simp [compileTyped, refuse] at hV
  | object types => intro p V hV; simp [compileTyped, refuse] at hV
  | scalar s =>
    intro p V hV
    have hV' := hV
    rw [compileTyped.eq_def] at hV
    split at hV
    next heq => cases heq
    next heq => cases heq; cases hV; exact h.untyped fields p
    next heq => cases heq; exact h.text fields p V hV
    next heq => cases heq; cases hV; exact h.number fields p
    next heq => cases heq; cases hV; exact h.integer fields p
    next heq => cases heq; cases hV; exact h.boolean fields p
    next heq => cases heq; cases hV; exact h.null fields p
    next heq =>
      cases heq
      obtain ⟨node, items, hn, -, hi, rfl⟩ := compileTyped_array_eq_ok_iff.1 hV'
      exact h.array fields p node items hn (ih node (Fields.sizeOf_named? hn) _ items hi)
    next heq =>
      cases heq
      obtain ⟨declared, properties, required, hd, hp, hr, rfl⟩ := compileTyped_object_eq_ok_iff.1 hV'
      exact h.object fields p declared properties required hd
        (hp.imp fun f hf => ih f.2 (Fields.sizeOf_declared hd hf)) hr
    next => cases hV

theorem Compositional.of_compileFields [CharacterNames] (h : Compositional mode P T)
    {fields : Fields}
    (ih : ∀ n, sizeOf n < sizeOf fields → ∀ q W, compileNode mode n q = .ok W → P n q W) (p : String)
    (V : Validator) (hF : compileFields mode fields p = .ok V) : P (.object fields) p V := by
  rw [compileFields_eq] at hF
  have hfrom := fields.reading_isFrom
  cases hr : fields.reading with
  | reference => rw [hr] at hF; cases hF
  | literal v => rw [hr] at hF; cases hF; exact h.literal fields p v hr
  | choices values => rw [hr] at hF; exact h.choices fields p values V hr hF
  | free => rw [hr] at hF; cases hF; exact h.free fields p hr
  | typed type =>
    rw [hr] at hF
    exact h.typed fields p type V hr (h.of_compileTyped ih type p V hF)
  | union keyword nodes =>
    rw [hr] at hF hfrom
    obtain ⟨ns, Vs, rfl, hVs, hV⟩ := compileUnion_eq_ok_iff.1 hF
    have hlt := Fields.sizeOf_named?_list hfrom.2
    exact h.union fields p keyword ns Vs V hr
      (hVs.imp fun n hn => ih n (Nat.lt_trans (List.sizeOf_lt_of_mem hn) hlt)) hV
  | all nodes =>
    rw [hr] at hF hfrom
    cases nodes with
    | list ns =>
      simp only [bind_eq_ok_iff, compileBranches_eq_ok_iff, pure, Except.pure, Except.ok.injEq] at hF
      obtain ⟨Vs, hVs, rfl⟩ := hF
      have hlt := Fields.sizeOf_named?_list hfrom
      exact h.all fields p ns Vs hr (hVs.imp fun n hn => ih n (Nat.lt_trans (List.sizeOf_lt_of_mem hn) hlt))
    | _ => cases hF

/-- What passes from the parts to the whole holds of every schema that compiles. -/
theorem Compositional.of_compileNode [CharacterNames] (h : Compositional mode P T) :
    ∀ (node : Value) (p : String) (V : Validator), compileNode mode node p = .ok V → P node p V
  | .object fields, p, V, hV =>
    h.of_compileFields (fun n _ => h.of_compileNode n) p V (by rwa [compileNode] at hV)
  | .scalar s, p, V, hV => by
    obtain ⟨b, heq, rfl⟩ | ⟨_, heq, -⟩ := compileNode_eq_ok hV
    · rw [heq]; exact h.bool b p
    · cases heq
  | .list items, p, V, hV => by
    obtain ⟨_, heq, -⟩ | ⟨_, heq, -⟩ := compileNode_eq_ok hV <;> cases heq
  | .tuple items, p, V, hV => by
    obtain ⟨_, heq, -⟩ | ⟨_, heq, -⟩ := compileNode_eq_ok hV <;> cases heq
termination_by node => sizeOf node

end

end SchemaGuard
