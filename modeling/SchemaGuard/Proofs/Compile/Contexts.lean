/-
  SchemaGuard — schemas in contexts.

  A congruence of trees that holds of the trees of two schemas holds of the trees of every
  context filled with them (`related_fill`). A context may hide its position, behind a `const`
  for example, and it may compile it several times, once for each type of a list of types.

  Main result: `compile_context`.
-/
import Mathlib
import SchemaGuard.Proofs.Compile.Relabeling
import SchemaGuard.Proofs.Compile.Retyping
import SchemaGuard.Proofs.Schema.Context
import SchemaGuard.Proofs.Validator.Refinement

namespace SchemaGuard

open Validator Value

/-- Wherever two schemas compile, their trees are related. -/
def CompileRelated [CharacterNames] (mode : Closedness) (R : Validator → Validator → Prop) (n n' : Value) : Prop :=
  ∀ p q V W, compileNode mode n p = .ok V → compileNode mode n' q = .ok W → R V W

section
variable {mode : Closedness} {R : Validator → Validator → Prop} {p q : String} {V W : Validator}

/-! ## Parts of nodes -/

theorem forall₂_of_atPlaces {S T : Value → String → Validator → Prop} {rel : Value → Value → Prop}
    (h : ∀ n n', rel n n' → ∀ a b V W, S n a V → T n' b W → R V W) {ns ns' : List Value}
    (hns : List.Forall₂ rel ns ns') {i j : Nat} {Vs Ws : List Validator} (hVs : AtPlaces S p i ns Vs)
    (hWs : AtPlaces T q j ns' Ws) : List.Forall₂ R Vs Ws := by
  unfold AtPlaces at hVs hWs
  induction hns generalizing i j Vs Ws with
  | nil => cases hVs; cases hWs; exact .nil
  | @cons n n' ns ns' hn _ ih =>
    rw [List.zipIdx_cons] at hVs hWs
    obtain ⟨V, _, hV, hVs', rfl⟩ := List.forall₂_cons_left_iff.1 hVs
    obtain ⟨W, _, hW, hWs', rfl⟩ := List.forall₂_cons_left_iff.1 hWs
    exact .cons (h n n' hn _ _ V W hV hW) (ih hVs' hWs')

theorem forall₂_of_atNames [CharacterNames] {declared declared' : Fields}
    (h : LinkedDeclarations (CompileRelated mode R) declared declared')
    {Vs Ws : List (String × Validator)}
    (hVs : AtNames (fun n a V => compileNode mode n a = .ok V) p declared Vs)
    (hWs : AtNames (fun n a W => compileNode mode n a = .ok W) q declared' Ws) :
    List.Forall₂ (fun a b => a.1 = b.1 ∧ R a.2 b.2) Vs Ws := by
  unfold AtNames at hVs hWs
  induction h generalizing Vs Ws with
  | nil => cases hVs; cases hWs; exact .nil
  | cons hf _ ih =>
    obtain ⟨⟨name, V⟩, _, ⟨hkey, hV⟩, hVs', rfl⟩ := List.forall₂_cons_left_iff.1 hVs
    obtain ⟨⟨name', W⟩, _, ⟨hkey', hW⟩, hWs', rfl⟩ := List.forall₂_cons_left_iff.1 hWs
    have hname : name = name' := Scalar.text.inj (hkey.symm.trans (hf.1.trans hkey'))
    exact .cons ⟨hname, hf.2 _ _ V W hV hW⟩ (ih hVs' hWs')

section
variable (hR : Congruence R)
include hR

/-- Compiled at two pointers, the same gives related trees. -/
theorem related_of_relabeled {c : String → Compiled}
    (hc : ∀ p, c (p ++ "") = relabeled (p ++ ·) (mapPointers (p ++ ·)) (c "")) (hV : c p = .ok V)
    (hW : c q = .ok W) : R V W := by
  rw [← String.append_empty (s := p), hc, relabeled_eq_ok_iff] at hV
  rw [← String.append_empty (s := q), hc, relabeled_eq_ok_iff] at hW
  obtain ⟨U, hU, rfl⟩ := hV
  obtain ⟨U', hU', rfl⟩ := hW
  obtain rfl : U = U' := Except.ok.inj (hU.symm.trans hU')
  exact hR.moved U p q

theorem compileRelated_refl [CharacterNames] (n : Value) : CompileRelated mode R n n := fun _ _ _ _ hV hW =>
  related_of_relabeled hR (fun p => compile_append n mode p "") hV hW

/-- Two schemas are related wherever they are, if they are at some place. -/
theorem compileRelated_of_compile [CharacterNames] {n n' : Value} {a b : String} (hV : compile n mode a = .ok V)
    (hW : compile n' mode b = .ok W) (h : R V W) : CompileRelated mode R n n' := fun _ _ _ _ hV' hW' =>
  hR.trans (compileRelated_refl hR n _ _ _ _ hV' hV) (hR.trans h (compileRelated_refl hR n' _ _ _ _ hW hW'))

theorem related_any (p q : String) : R (.any p) (.any q) := by
  simpa [mapPointers] using hR.moved (.any "") p q

theorem related_unionOf {Vs Ws : List Validator} (h : List.Forall₂ R Vs Ws) (hV : unionOf p Vs = .ok V)
    (hW : unionOf q Ws = .ok W) : R V W := by
  rcases unionOf_eq_ok_iff.1 hV with rfl | ⟨hlen, rfl⟩
  · obtain ⟨W', _, hVW, ⟨⟩, rfl⟩ := List.forall₂_cons_left_iff.1 h
    cases hW
    exact hVW
  · rcases unionOf_eq_ok_iff.1 hW with rfl | ⟨-, rfl⟩
    · exact absurd (h.length_eq ▸ hlen) (by simp)
    · exact hR.union p q h

theorem related_intersectionOf {Vs Ws : List Validator} (h : List.Forall₂ R Vs Ws) :
    R (intersectionOf p Vs) (intersectionOf q Ws) := by
  cases h with
  | nil => exact related_any hR p q
  | @cons V W Vs Ws hVW h =>
    rw [intersectionOf, intersectionOf]
    induction h generalizing V W with
    | nil => exact hVW
    | cons hVW' _ ih => exact ih (hR.both p q hVW hVW')

theorem related_union [CharacterNames] {nodes nodes' : Value}
    (h : Linked (CompileRelated mode R) .schemas nodes nodes')
    (hV : compileUnion mode nodes p = .ok V) (hW : compileUnion mode nodes' q = .ok W) : R V W := by
  obtain ⟨ns, Vs, rfl, hVs, hV⟩ := compileUnion_eq_ok_iff.1 hV
  obtain ⟨ns', Ws, rfl, hWs, hW⟩ := compileUnion_eq_ok_iff.1 hW
  have hns := h.forall₂ (compileRelated_refl hR)
  exact related_unionOf hR (forall₂_of_atPlaces (fun n n' hn a b => hn a b) hns hVs hWs) hV hW

/-! ## Nodes -/

variable [CharacterNames] {fields fields' : Fields}
  (h : LinkedFields (CompileRelated mode R) fields fields')
include h

theorem related_array (hV : compileTyped mode fields (.text "array") p = .ok V)
    (hW : compileTyped mode fields' (.text "array") q = .ok W) : R V W := by
  obtain ⟨node, items, hnode, -, hitems, rfl⟩ := compileTyped_array_eq_ok_iff.1 hV
  obtain ⟨node', items', hnode', -, hitems', rfl⟩ := compileTyped_array_eq_ok_iff.1 hW
  have hrules : listRules fields' = listRules fields := by
    simp only [listRules, h.given?_eq "minItems" (by decide),
      h.given?_eq "maxItems" (by decide), h.named?_eq "uniqueItems" (by decide)]
  have hrel := h "items"
  rw [hnode, hnode'] at hrel
  cases hrel with
  | some hlinked =>
    have hitem := Linked.related (compileRelated_refl hR) hlinked
    rw [hrules]
    exact hR.list p q _ (hitem _ _ items items' hitems hitems')

theorem related_object (hV : compileTyped mode fields (.text "object") p = .ok V)
    (hW : compileTyped mode fields' (.text "object") q = .ok W) : R V W := by
  obtain ⟨declared, properties, required, hd, hp, hr, rfl⟩ := compileTyped_object_eq_ok_iff.1 hV
  obtain ⟨declared', properties', required', hd', hp', hr', rfl⟩ := compileTyped_object_eq_ok_iff.1 hW
  have hrequired : required' = required := by
    rw [Fields.named, h.named?_eq "required" (by decide)] at hr'
    exact Except.ok.inj (hr'.symm.trans hr)
  have hclosedness : closednessOf mode fields' = closednessOf mode fields := by
    simp only [closednessOf, h.named?_eq "additionalProperties" (by decide)]
  have hdeclared := h.declared? (compileRelated_refl hR)
  rw [hd, hd'] at hdeclared
  cases hdeclared with
  | some hlinked =>
    rw [hrequired, hclosedness]
    exact hR.object p q _ _ (forall₂_of_atNames hlinked hp hp')

theorem related_typed (type : Value) : ∀ p q V W, compileTyped mode fields type p = .ok V →
    compileTyped mode fields' type q = .ok W → R V W := by
  induction type with
  | list types ih =>
    intro p q V W hV hW
    obtain ⟨Vs, hVs, hV⟩ := compileTyped_list_eq_ok_iff.1 hV
    obtain ⟨Ws, hWs, hW⟩ := compileTyped_list_eq_ok_iff.1 hW
    have htypes : List.Forall₂ (fun t t' => t ∈ types ∧ t = t') types types :=
      List.forall₂_same.2 fun t ht => ⟨ht, rfl⟩
    refine related_unionOf hR (forall₂_of_atPlaces ?_ htypes hVs hWs) hV hW
    rintro t _ ⟨ht, rfl⟩ a b V W hV hW
    exact ih t ht a b V W hV hW
  | tuple types => intro p q V W hV; simp [compileTyped, refuse] at hV
  | object types => intro p q V W hV; simp [compileTyped, refuse] at hV
  | scalar s =>
    intro p q V W hV hW
    by_cases hs : Value.scalar s = .text "array"
    · rw [hs] at hV hW
      exact related_array hR h hV hW
    by_cases hs' : Value.scalar s = .text "object"
    · rw [hs'] at hV hW
      exact related_object hR h hV hW
    have hscalar : ∀ name ∈ scalarKeywords, fields'.named? name = fields.named? name := by
      have hdata : ∀ name ∈ scalarKeywords, Role.ofKeyword name = .data := by decide
      exact fun name hn => h.named?_eq name (hdata name hn)
    rw [compileTyped_scalar_eq hscalar hs hs'] at hW
    have hrelabels := relabels_mapPointers mode
    exact related_of_relabeled hR (c := compileTyped mode fields (.scalar s))
      (fun p => (hrelabels p).map_typed (fun n _ => (hrelabels p).map_node n) _ "") hV hW

/-- Nodes with linked values under every keyword have related trees. -/
theorem related_node : CompileRelated mode R (.object fields) (.object fields') := by
  intro p q V W hV hW
  have hreading : Reading.Related (fun k => Linked (CompileRelated mode R) (Role.ofKeyword k))
      fields.reading fields'.reading := by
    refine Fields.reading_related ?_ fun k _ => h k
    rw [Fields.has, Fields.has, h.named?_eq "$ref" (by decide)]
  rw [compileNode, compileFields_eq] at hV hW
  generalize fields.reading = r, fields'.reading = r' at hreading hV hW
  cases hreading with
  | reference => cases hV
  | free => cases hV; cases hW; exact related_any hR p q
  | literal hvw => cases hvw; cases hV; cases hW; simpa [mapPointers] using hR.moved (.literal "" _) p q
  | choices hvw =>
    cases hvw
    exact related_of_relabeled hR (fun p => (relabels_mapPointers mode p).map_enum _ "") hV hW
  | typed hvw => cases hvw; exact related_typed hR h _ p q V W hV hW
  | @union keyword v w hk hvw =>
    have hnodes : Linked (CompileRelated mode R) .schemas v w := by rcases hk with rfl | rfl <;> exact hvw
    exact related_union hR hnodes hV hW
  | @all v w hvw =>
    cases v with
    | list ns =>
      cases w with
      | list ns' =>
        simp only [bind_eq_ok_iff, compileBranches_eq_ok_iff, pure, Except.pure, Except.ok.injEq] at hV hW
        obtain ⟨Vs, hVs, rfl⟩ := hV
        obtain ⟨Ws, hWs, rfl⟩ := hW
        have hns := Linked.forall₂ (compileRelated_refl hR) hvw
        exact related_intersectionOf hR (forall₂_of_atPlaces (fun n n' hn a b => hn a b) hns hVs hWs)
      | _ => cases hW
    | _ => cases hV

omit h in
/-- A context filled with related schemas. -/
theorem related_fill (C : Context .schema) {n n' : Value} (hn : CompileRelated mode R n n') :
    CompileRelated mode R (C.fill n) (C.fill n') :=
  (C.linked (compileRelated_refl hR) (related_node hR) hn).related (compileRelated_refl hR)

omit h in
/-- What holds of the trees of two schemas at some place holds of a context's, wherever that is. -/
theorem related_of_compile_fill (C : Context .schema) {n n' : Value} {a b : String}
    {T T' : Validator}
    (hT : compile n mode a = .ok T) (hT' : compile n' mode b = .ok T') (hTT' : R T T')
    (hV : compile (C.fill n) mode p = .ok V) (hW : compile (C.fill n') mode q = .ok W) : R V W :=
  related_fill hR C (compileRelated_of_compile hR hT hT' hTT') p q V W hV hW

end

end

/-! ## Refined and equivalent schemas -/

/-- **Refining a sub-schema can only narrow the whole.** If `t` settles what `t'` settles and
    accepts what `t'` accepts, the same holds of any context filled with `t` and with `t'`. If `t`
    and `t'` settle the same, and accept the same with the same outputs, so does the context
    filled with either. -/
theorem compile_context [CharacterNames] (C : Context .schema) {mode : Closedness} {t t' : Value} {a b p q : String}
    {T T' V V' : Validator} (hT : compile t mode a = .ok T) (hT' : compile t' mode b = .ok T')
    (hV : compile (C.fill t) mode p = .ok V) (hV' : compile (C.fill t') mode q = .ok V') :
    (T'.Refines T → V'.Refines V) ∧ (T.Matches T' → V.Matches V') := by
  constructor
  · intro hrefines
    exact related_of_compile_fill congruence_refines C hT' hT hrefines hV' hV
  · intro hmatches
    exact related_of_compile_fill congruence_matches C hT hT' hmatches hV hV'

/-- A schema with nothing but a type. -/
def ofType (name : String) : Value := .object [(.text "type", .text name)]

/-- Lists, or null, whose elements have some schema or are texts. -/
def listed : Context .schema :=
  .keyword [(.text "type", .list [.text "array", .text "null"])] "items"
    (.keyword [] "anyOf" (.item [] .hole [ofType "string"]) []) []

/-- Integers in place of numbers, and numbers behind an `allOf` in place of numbers. -/
theorem compile_context_listed : ∃ V V' V'',
    compile (listed.fill (ofType "number")) .strip "#" = .ok V ∧
    compile (listed.fill (ofType "integer")) .strip "#" = .ok V' ∧
    compile (listed.fill (.object [(.text "allOf", .list [ofType "number"])])) .strip "#" = .ok V'' ∧
    V'.Refines V ∧ V.Matches V'' := by
  let numbers : NumberRules := ⟨false, none, none, none, none⟩
  let integers : NumberRules := ⟨true, none, none, none, none⟩
  have hrefines : (number "#" integers).Refines (.number "#" numbers) :=
    { settles := fun _ hr _ => NumericSizes.settles (by decide) hr
      accepts := fun _ _ ⟨o, ho⟩ => by
        obtain ⟨n, rfl, hfinite, -, -⟩ := accepts_number_iff.1 ho
        exact ⟨_, accepts_number_iff.2 ⟨n, rfl, hfinite, rfl, rfl⟩⟩ }
  have hmatches : (number "#" numbers).Matches (.number "#/allOf/0" numbers) :=
    congruence_matches.moved (.number "" numbers) "#" "#/allOf/0"
  have hT : compile (ofType "number") .strip "#" = .ok (.number "#" numbers) := by cbv
  have hT' : compile (ofType "integer") .strip "#" = .ok (.number "#" integers) := by cbv
  have hT'' : compile (.object [(.text "allOf", .list [ofType "number"])]) .strip "#" =
      .ok (.number "#/allOf/0" numbers) := by cbv
  obtain ⟨V, hV⟩ : ∃ V, compile (listed.fill (ofType "number")) .strip "#" = .ok V := ⟨_, by cbv⟩
  obtain ⟨V', hV'⟩ : ∃ V, compile (listed.fill (ofType "integer")) .strip "#" = .ok V := ⟨_, by cbv⟩
  obtain ⟨V'', hV''⟩ : ∃ V, compile (listed.fill (.object [(.text "allOf", .list [ofType "number"])]))
    .strip "#" = .ok V := ⟨_, by cbv⟩
  exact ⟨V, V', V'', hV, hV', hV'', (compile_context listed hT hT' hV hV').1 hrefines,
    (compile_context listed hT hT'' hV hV'').2 hmatches⟩

/-! ## What contexts can tell apart -/

/-- A union whose other branch accepts everything. -/
def orAnything : Context .schema := .keyword [] "anyOf" (.item [] .hole [.bool true]) []

theorem compile_orAnything [CharacterNames] {t : Value} {mode : Closedness} {p : String} {U : Validator}
    (hU : compile t mode (p ++ "/anyOf/0") = .ok U) :
    compile (orAnything.fill t) mode p = .ok (.union (p ++ "/anyOf") [U, .any (p ++ "/anyOf/1")]) := by
  have hreading : Fields.reading [(.text "anyOf", .list [t, .bool true])] =
      .union "anyOf" (.list [t, .bool true]) := rfl
  have hkeyword : p ++ "/" ++ "anyOf" = p ++ "/anyOf" := String.append_assoc ..
  have hfirst : p ++ "/anyOf" ++ "/" ++ toString 0 = p ++ "/anyOf/0" := by
    rw [String.append_assoc, String.append_assoc]; rfl
  have hsecond : p ++ "/anyOf" ++ "/" ++ toString 1 = p ++ "/anyOf/1" := by
    rw [String.append_assoc, String.append_assoc]; rfl
  change compileNode mode (.object [(.text "anyOf", .list [t, .bool true])]) p = _
  rw [compileNode, compileFields_eq, hreading]
  dsimp only
  rw [hkeyword]
  refine compileUnion_eq_ok_iff.2 ⟨_, _, rfl, .cons ?_ (.cons ?_ .nil), rfl⟩
  · dsimp only
    rw [hfirst]
    exact hU
  · dsimp only
    rw [hsecond, compileNode.eq_def]

/-- Where the other branch accepts everything, what is accepted is what the first one settles. -/
theorem exists_accepts_orAnything_iff {p q : String} {U : Validator} {v : Value} :
    (∃ o, (union p [U, .any q]).Accepts v o) ↔ U.Settles v := by
  have hrest : ∃ o, (union p [.any q]).Accepts v o :=
    ⟨v, accepts_union_cons_iff.2 (Or.inl (accepts_any_iff.2 rfl))⟩
  rw [exists_accepts_union_cons_iff, settles_iff, and_iff_left hrest]

/-- Nothing less than refinement narrows every context: a schema has to settle what the
    refined one settles, too. -/
theorem refines_iff_forall_context [CharacterNames] {mode : Closedness} {t t' : Value} {a b : String}
    {T T' : Validator}
    (hT : compile t mode a = .ok T) (hT' : compile t' mode b = .ok T') :
    T'.Refines T ↔ ∀ (C : Context .schema) (p q : String) (V V' : Validator),
      compile (C.fill t) mode p = .ok V → compile (C.fill t') mode q = .ok V' →
      ∀ v : Value, v.IsJson → v.InRange → (∃ o, V'.Accepts v o) → ∃ o, V.Accepts v o := by
  constructor
  · intro h C p q V V' hV hV' v hv hr
    exact (related_of_compile_fill congruence_refines C hT' hT h hV' hV).accepts hv hr
  · intro h
    refine ⟨fun {v} hv hr hs => ?_, fun {v} hv hr => h .hole a b T T' hT hT' v hv hr⟩
    obtain ⟨U, hU⟩ := (exists_compile_iff a ("#" ++ "/anyOf/0")).1 ⟨T, hT⟩
    obtain ⟨U', hU'⟩ := (exists_compile_iff b ("#" ++ "/anyOf/0")).1 ⟨T', hT'⟩
    have hTU := compileRelated_refl congruence_matches t _ _ T U hT hU
    have hTU' := compileRelated_refl congruence_matches t' _ _ T' U' hT' hU'
    have hnarrows := h orAnything "#" "#" _ _ (compile_orAnything hU) (compile_orAnything hU') v hv hr
    rw [exists_accepts_orAnything_iff, exists_accepts_orAnything_iff, ← hTU.settles hv hr,
      ← hTU'.settles hv hr] at hnarrows
    exact hnarrows hs

/-- A text with a bound that is not a number. -/
def unsized : Value := .object [(.text "type", .text "string"), (.text "minLength", .text "x")]

/-- Acceptance alone does not carry over, and neither do outputs: a branch that ends in a fault
    accepts as little as one that always rejects, which leaves its values to the next branch. -/
theorem compile_context_fails :
    (¬ ∀ (C : Context .schema) (mode : Closedness) (t t' : Value) (p : String) (T T' V V' : Validator),
      compile t mode p = .ok T → compile t' mode p = .ok T' →
      compile (C.fill t) mode p = .ok V → compile (C.fill t') mode p = .ok V' →
      (∀ v : Value, v.IsJson → v.InRange → (∃ o, T'.Accepts v o) → ∃ o, T.Accepts v o) →
      ∀ v : Value, v.IsJson → v.InRange → (∃ o, V'.Accepts v o) → ∃ o, V.Accepts v o) ∧
    ¬ ∀ (C : Context .schema) (mode : Closedness) (t t' : Value) (p : String) (T T' V V' : Validator),
      compile t mode p = .ok T → compile t' mode p = .ok T' →
      compile (C.fill t) mode p = .ok V → compile (C.fill t') mode p = .ok V' →
      (∀ v o : Value, v.IsJson → v.InRange → (T.Accepts v o ↔ T'.Accepts v o)) →
      ∀ v o : Value, v.IsJson → v.InRange → (V.Accepts v o ↔ V'.Accepts v o) := by
  let rules : TextRules := ⟨some (.text "x"), none, none, none, false⟩
  let V : Validator := .union "#/anyOf" [.text "#/anyOf/0" rules, .any "#/anyOf/1"]
  let V' : Validator := .union "#/anyOf" [.never "#/anyOf/0", .any "#/anyOf/1"]
  have hT : compile unsized .strip "#" = .ok (.text "#" rules) := by cbv
  have hT' : compile (.bool false) .strip "#" = .ok (.never "#") := by cbv
  have hV : compile (orAnything.fill unsized) .strip "#" = .ok V := by cbv
  have hV' : compile (orAnything.fill (.bool false)) .strip "#" = .ok V' := by cbv
  have hnothing : ∀ v o, ¬ (text "#" rules).Accepts v o := fun v o ho => by
    obtain ⟨s, -, hfindings, -⟩ := accepts_text_iff.1 ho
    cases (TextRules.findings_eq_ok_nil_iff.1 hfindings).1
  have hnothing' : ∀ v o, ¬ (never "#").Accepts v o := fun v o => not_accepts_never
  have hfault : ∀ o, ¬ V.Accepts (.text "a") o := fun o ho => by
    have herror : V.check (.text "a") [] = .error .boundNotNumber := by cbv
    rw [Accepts, herror] at ho
    cases ho
  have hnext : V'.Accepts (.text "a") (.text "a") := by cbv
  constructor
  · intro h
    have hnarrower : ∀ v : Value, v.IsJson → v.InRange → (∃ o, (never "#").Accepts v o) →
        ∃ o, (text "#" rules).Accepts v o := by
      rintro v - - ⟨o, ho⟩
      exact absurd ho (hnothing' v o)
    obtain ⟨o, ho⟩ := h orAnything .strip unsized (.bool false) "#" _ _ V V' hT hT' hV hV' hnarrower
      (.text "a") (by decide) (by decide) ⟨_, hnext⟩
    exact hfault o ho
  · intro h
    have hiff := h orAnything .strip unsized (.bool false) "#" _ _ V V' hT hT' hV hV'
      (fun v o _ _ => iff_of_false (hnothing v o) (hnothing' v o)) (.text "a") (.text "a") (by decide) (by decide)
    exact hfault _ (hiff.2 hnext)

end SchemaGuard
