/-
  SchemaGuard — what compiling comes upon.

  Compiling a document looks at its nodes in document order, and at those of their keywords that
  the schemas below do not account for: patterns, properties, required names. Any of these may
  be what compiling fails at.

  * `n.stops p`: what compiling a node looks at and what it enters, one after the other;
  * `encounters d p`: everything that compiling a document at a pointer comes upon;
  * `e.failure`: the reason, if any, for which compiling cannot go on from there;
  * `d.ComesTo p e`: compiling comes to `e` before anything fails.

  Main result: `compile_answers`. Compiling ends with the first failure of what it comes upon, and
  with a validator where nothing fails; so it ends with a failure exactly if it comes to something
  that fails so (`compile_eq_error_iff`).
-/
import Mathlib
import SchemaGuard.Proofs.Compile.Visits

namespace SchemaGuard

/-! ## Encounters -/

/-- What compiling comes upon. -/
inductive Encounter where
  | node (n : Value) (p : String)
  /-- the pattern of a node of type `string`, null if it gives none -/
  | pattern (source : Value) (p : String)
  /-- the properties of a node of type `object`, null if it gives none -/
  | properties (v : Value)
  /-- a property name that is no text -/
  | name (key : Scalar)
  /-- the required names of a node of type `object`, null if it gives none -/
  | required (v : Value)

/-- A stop at a node: something to look at, or a schema to enter. -/
inductive Stop where
  | look (e : Encounter)
  | enter (v : String × Value)

/-- The schema that a stop enters. -/
def Stop.entered? : Stop → Option (String × Value)
  | look _ => none
  | enter v => some v

/-- The stops at properties: their schemas, or the names that are no texts. -/
def propertyStops (base : String) (properties : Fields) : List Stop :=
  properties.map fun f =>
    match f.1 with
    | .text name => .enter (Pointer.child base name, f.2)
    | key => .look (.name key)

/-- The stops at a node under a type. -/
def Fields.stopsUnder (fields : Fields) (type : Value) (p : String) : List Stop :=
  match type with
  | .text "string" => [.look (.pattern (fields.named "pattern") (p ++ "/pattern"))]
  | .text "object" =>
    .look (.properties (fields.named "properties")) ::
      (propertyStops (p ++ "/properties") fields.propertyFields ++
        [.look (.required (fields.named "required"))])
  | type => (fields.enteredUnder type p).map .enter

/-- The stops at a node, in document order. -/
def Value.stops (n : Value) (p : String) : List Stop :=
  match n with
  | .object fields =>
    match Fields.reading fields with
    | .typed type => Fields.stopsUnder fields type p
    | r => (r.entered p).map .enter
  | _ => []

section
variable {p : String}

theorem filterMap_entered?_map_enter (vs : List (String × Value)) :
    (vs.map Stop.enter).filterMap Stop.entered? = vs := by
  induction vs with
  | nil => rfl
  | cons v vs ih => exact congrArg (v :: ·) ih

theorem filterMap_propertyStops (base : String) (properties : Fields) :
    (propertyStops base properties).filterMap Stop.entered? = propertiesAt base properties := by
  rw [propertyStops, List.filterMap_map, propertiesAt]
  refine List.filterMap_congr fun f _ => ?_
  obtain ⟨key, n⟩ := f
  cases key <;> rfl

theorem Fields.filterMap_stopsUnder (fields : Fields) (type : Value) (p : String) :
    (fields.stopsUnder type p).filterMap Stop.entered? = fields.enteredUnder type p := by
  unfold stopsUnder
  split
  next => rfl
  next =>
    rw [List.filterMap_cons_none rfl, List.filterMap_append, filterMap_propertyStops]
    exact List.append_nil _
  next => exact filterMap_entered?_map_enter _

/-- The schemas that the stops at a node enter are those that its reading asks for. -/
theorem Value.filterMap_stops (n : Value) (p : String) :
    (n.stops p).filterMap Stop.entered? = n.entered p := by
  cases n with
  | object fields =>
    simp only [stops, entered]
    cases Fields.reading fields with
    | typed type => exact Fields.filterMap_stopsUnder fields type p
    | _ => exact filterMap_entered?_map_enter _
  | _ => rfl

theorem Value.mem_entered {n : Value} {v : String × Value} (h : .enter v ∈ n.stops p) : v ∈ n.entered p := by
  rw [← n.filterMap_stops p]
  exact List.mem_filterMap.2 ⟨_, h, rfl⟩

end

/-- What compiling a document at a pointer comes upon: its node, then what is at its stops. -/
def encounters (n : Value) (p : String) : List Encounter :=
  .node n p :: (n.stops p).attach.flatMap fun s =>
    match s with
    | ⟨.look e, _⟩ => [e]
    | ⟨.enter v, _⟩ => encounters v.2 v.1
termination_by sizeOf n
decreasing_by exact Value.sizeOf_entered (Value.mem_entered ‹_›)

/-- What compiling comes upon at a stop. -/
def Stop.encounters : Stop → List Encounter
  | look e => [e]
  | enter v => SchemaGuard.encounters v.2 v.1

theorem encounters_eq (n : Value) (p : String) :
    encounters n p = .node n p :: (n.stops p).flatMap Stop.encounters := by
  rw [encounters]
  refine congrArg _ ((List.flatMap_subtype fun s _ => ?_).trans (by rw [List.unattach_attach]))
  cases s <;> rfl

/-- What is come upon is a visited node, or is looked at from one. -/
theorem exists_visited_of_mem_encounters {n : Value} {p : String} {e : Encounter} (h : e ∈ encounters n p) :
    ∃ v ∈ visits n p, e = .node v.2 v.1 ∨ .look e ∈ v.2.stops v.1 := by
  induction hs : sizeOf n using Nat.strong_induction_on generalizing n p with
  | _ size ih =>
    rw [encounters_eq, List.mem_cons, List.mem_flatMap] at h
    rcases h with rfl | ⟨s, hstop, he⟩
    · exact ⟨(p, n), mem_visits_iff.2 (Or.inl rfl), Or.inl rfl⟩
    cases s with
    | look e' =>
      obtain rfl := List.mem_singleton.1 he
      exact ⟨(p, n), mem_visits_iff.2 (Or.inl rfl), Or.inr hstop⟩
    | enter w =>
      have hw := Value.mem_entered hstop
      obtain ⟨v, hv, hcase⟩ := ih _ (hs ▸ Value.sizeOf_entered hw) he rfl
      exact ⟨v, mem_visits_iff.2 (Or.inr ⟨w, hw, hv⟩), hcase⟩

/-! ## Failures -/

/-- Something else stands where the reading needs a list. -/
def Reading.unlisted (r : Reading) (p : String) : Option SchemaError :=
  match r with
  | .choices (.list _) | .union _ (.list _) | .all (.list _) => none
  | .choices _ => some ⟨.enumNotList, p⟩
  | .union keyword _ => some ⟨.unionNotList, p ++ "/" ++ keyword⟩
  | .all _ => some ⟨.allOfNotList, p ++ "/allOf"⟩
  | _ => none

/-- Something else stands where the reading of a node needs a list. -/
def Value.unlisted (n : Value) (p : String) : Option SchemaError :=
  match n with
  | .object fields => (Fields.reading fields).unlisted p
  | _ => none

/-- A computation ends with a result where there is no failure, and else with the failure. -/
def Answers {α : Type} (o : Option CompileFailure) (x : Except CompileFailure α) : Prop :=
  match o with
  | none => ∃ a, x = .ok a
  | some e => x = .error e

section
variable {α β : Type} {o o' : Option CompileFailure}

theorem Answers.bind {x : Except CompileFailure α} {f : α → Except CompileFailure β} (hx : Answers o x)
    (hf : ∀ a, x = .ok a → Answers o' (f a)) : Answers (o.or o') (x >>= f) := by
  cases o with
  | none =>
    obtain ⟨a, rfl⟩ := hx
    exact hf a rfl
  | some e =>
    rw [show x = .error e from hx]
    rfl

theorem Answers.bind_ok {x : Except CompileFailure α} {f : α → Except CompileFailure β} (hx : Answers o x)
    (hf : ∀ a, x = .ok a → ∃ b, f a = .ok b) : Answers o (x >>= f) := by
  have hnone : ∀ a, x = .ok a → Answers none (f a) := hf
  have h := hx.bind hnone
  rwa [Option.or_none] at h

theorem Answers.map {x : Except CompileFailure α} (hx : Answers o x) (f : α → β) :
    Answers o (x >>= fun a => .ok (f a)) :=
  hx.bind_ok fun _ _ => ⟨_, rfl⟩

theorem Answers.eq_error_iff {x : Except CompileFailure α} (hx : Answers o x) {e : CompileFailure} :
    x = .error e ↔ o = some e := by
  cases o with
  | none => obtain ⟨a, rfl⟩ := hx; exact iff_of_false nofun nofun
  | some e' => rw [show x = .error e' from hx, Except.error.injEq, Option.some.injEq]

theorem answers_refusal {x : Except CompileFailure α} {e : SchemaError} (hx : x = .error (.refused e)) :
    Answers ((some (.refused e)).or o) x :=
  hx

end

section
variable [CharacterNames]

/-- Why compiling cannot go on from what it comes upon, if so. -/
def Encounter.failure : Encounter → Option CompileFailure
  | node n p => ((n.ownError p).or (n.unlisted p)).map .refused
  | pattern source p =>
    match compilePattern source p with
    | .ok _ => none
    | .error e => some e
  | properties (.object _) => none
  | properties v => if v.isVacant then none else some (.fault .propertiesNotObject)
  | name key => some (.fault (.nameNotText key))
  | required v =>
    match nameSet v with
    | .ok _ => none
    | .error f => some (.fault f)

/-- A pattern that is a text fails as reading its anchored form does. -/
theorem failure_pattern_text (s q : String) : (Encounter.pattern (.text s) q).failure =
    match Pattern.ofText (Pattern.anchorEnd s.toList) with
    | .ok _ => none
    | .error (.refused r) =>
      some (.refused ⟨.invalidPattern (.text s) (r.message (Pattern.anchorEnd s.toList)), q⟩)
    | .error (.fault f) => some (.fault f) := by
  rw [Encounter.failure, compilePattern_text]
  rcases Pattern.ofText (Pattern.anchorEnd s.toList) with (r | f) | pattern <;> rfl

theorem failure_pattern_text_eq_fault_iff {s q : String} {f : Fault} :
    (Encounter.pattern (.text s) q).failure = some (.fault f) ↔
      Pattern.ofText (Pattern.anchorEnd s.toList) = .error (.fault f) := by
  rw [failure_pattern_text]
  rcases Pattern.ofText (Pattern.anchorEnd s.toList) with (r | f) | pattern <;> simp

/-- The first failure of what is come upon. -/
def firstFailure (es : List Encounter) : Option CompileFailure := es.findSome? Encounter.failure

theorem firstFailure_cons (e : Encounter) (es : List Encounter) :
    firstFailure (e :: es) = e.failure.or (firstFailure es) := by
  cases h : e.failure <;> simp [firstFailure, h]

theorem firstFailure_append (es es' : List Encounter) :
    firstFailure (es ++ es') = (firstFailure es).or (firstFailure es') :=
  List.findSome?_append

theorem firstFailure_encounters (n : Value) (p : String) : firstFailure (encounters n p) =
    (((n.ownError p).or (n.unlisted p)).map .refused).or (firstFailure ((n.stops p).flatMap Stop.encounters)) := by
  rw [encounters_eq, firstFailure_cons]
  rfl

/-- What fails first is behind what does not fail. -/
theorem firstFailure_eq_some_iff {es : List Encounter} {e : CompileFailure} :
    firstFailure es = some e ↔ ∃ before x after, es = before ++ x :: after ∧
      (∀ y ∈ before, y.failure = none) ∧ x.failure = some e := by
  unfold firstFailure
  rw [List.findSome?_eq_some_iff]
  exact ⟨fun ⟨before, x, after, hes, hx, hbefore⟩ => ⟨before, x, after, hes, hbefore, hx⟩,
    fun ⟨before, x, after, hes, hbefore, hx⟩ => ⟨before, x, after, hes, hx, hbefore⟩⟩

/-! ## Parts -/

variable {mode : Closedness}

/-- Compiling a node answers the first failure of what it comes upon, wherever the node is. -/
def Answered (mode : Closedness) (n : Value) : Prop :=
  ∀ p, Answers (firstFailure (encounters n p)) (compileNode mode n p)

theorem answers_branches {nodes : List Value} (hnodes : ∀ n ∈ nodes, Answered mode n) (base : String) (i : Nat) :
    Answers (firstFailure (((listedAt base nodes i).map Stop.enter).flatMap Stop.encounters))
      (compileBranches mode nodes base i) := by
  induction nodes generalizing i with
  | nil => rw [compileBranches]; exact ⟨_, rfl⟩
  | cons n nodes ih =>
    obtain ⟨hn, hnodes⟩ := List.forall_mem_cons.1 hnodes
    rw [listedAt, List.zipIdx_cons, List.map_cons, List.map_cons, List.flatMap_cons, firstFailure_append,
      compileBranches]
    exact (hn _).bind fun V _ => (ih hnodes (i + 1)).map fun Vs => V :: Vs

theorem answers_properties {properties : Fields} {p : String}
    (hnodes : ∀ v ∈ propertiesAt (p ++ "/properties") properties, Answered mode v.2) :
    Answers (firstFailure ((propertyStops (p ++ "/properties") properties).flatMap Stop.encounters))
      (compileProperties mode properties p) := by
  induction properties with
  | nil => rw [compileProperties]; exact ⟨_, rfl⟩
  | cons f properties ih =>
    obtain ⟨key, n⟩ := f
    rw [propertyStops, List.map_cons, List.flatMap_cons, firstFailure_append, compileProperties]
    cases key with
    | text name =>
      rw [propertiesAt_cons] at hnodes
      obtain ⟨hn, hothers⟩ := List.forall_mem_cons.1 hnodes
      exact (hn _).bind fun V _ => (ih hothers).map fun Vs => (name, V) :: Vs
    | _ => exact rfl

/-- A union of at least one schema answers the first failure of its branches. -/
theorem answers_union {nodes : List Value} (hne : nodes ≠ []) (hnodes : ∀ n ∈ nodes, Answered mode n)
    (base : String) :
    Answers (firstFailure (((listedAt base nodes 0).map Stop.enter).flatMap Stop.encounters))
      (compileUnion mode (.list nodes) base) := by
  rw [compileUnion]
  refine (answers_branches hnodes base 0).bind_ok fun Vs hVs => ?_
  have hplaces := compileBranches_eq_ok_iff.1 hVs
  rcases Vs with _ | ⟨V, _ | ⟨W, Vs⟩⟩
  · exact absurd (by simpa using hplaces.length_eq) hne
  · exact ⟨V, rfl⟩
  · exact ⟨_, rfl⟩

theorem answered_of_listed {base : String} {nodes : List Value}
    (h : ∀ v ∈ listedAt base nodes 0, Answered mode v.2) : ∀ n ∈ nodes, Answered mode n := fun n hn => by
  obtain ⟨q, hq⟩ := exists_mem_listedAt hn base
  exact h _ hq

/-! ## Nodes under a type -/

section
variable {fields : Fields} {p : String}

omit [CharacterNames] in
/-- Nothing is asked for under a type that is neither `array` nor `object`. -/
theorem enteredUnder_eq_nil {s : Scalar} (harray : Value.scalar s ≠ .text "array")
    (hobject : Value.scalar s ≠ .text "object") : fields.enteredUnder (.scalar s) p = [] := by
  unfold Fields.enteredUnder
  split
  next heq => cases heq
  next heq => exact absurd heq harray
  next heq => exact absurd heq hobject
  next => rfl

/-- Under a type that is none of these, only an unknown type is an error. -/
theorem typeError_eq_of_ne (fields : Fields) (p : String) {s : Scalar} (hstring : Value.scalar s ≠ .text "string")
    (harray : Value.scalar s ≠ .text "array") : fields.typeError (.scalar s) p =
      if .scalar s ∈ Value.null :: Draft.names.map Value.text then none
      else some ⟨.unsupportedType (.scalar s), p⟩ := by
  unfold Fields.typeError
  split
  next heq => cases heq
  next heq => cases heq
  next heq => exact absurd heq hstring
  next heq => exact absurd heq harray
  next => rfl

end

theorem compileTypes_eq_branches {fields : Fields} {type : Value} (hr : fields.reading = .typed type)
    (types : List Value) (base : String) (i : Nat) :
    compileTypes mode fields types base i = compileBranches mode (fields.copies types) base i := by
  induction types generalizing i with
  | nil => rw [Fields.copies, List.map_nil, compileTypes, compileBranches]
  | cons t types ih =>
    rw [Fields.copies, List.map_cons, compileTypes, compileBranches, compileNode_set_type hr, ih]
    rfl

/-- A list of types is the union of the copies of the node. -/
theorem compileTyped_list_eq_union {fields : Fields} {type : Value} (hr : fields.reading = .typed type)
    (types : List Value) (p : String) :
    compileTyped mode fields (.list types) p = compileUnion mode (.list (fields.copies types)) (p ++ "/type") := by
  rw [compileTyped, compileUnion, compileTypes_eq_branches hr]

/-- A text that is refused as a pattern is refused where it is compiled. -/
theorem compilePattern_of_problem {source : Value} {problem : SchemaProblem} {q : String}
    (h : source.patternProblem? = some problem) : compilePattern source q = .error (.refused ⟨problem, q⟩) := by
  unfold Value.patternProblem? at h
  split at h
  next s =>
    split at h
    next r hread => cases h; rw [compilePattern_text, hread]; rfl
    next => cases h
  next => cases h

section
variable {fields : Fields} {p : String}

theorem failure_properties (fields : Fields) : (Encounter.properties (fields.named "properties")).failure =
    match fields.declared? with
    | none => some (.fault .propertiesNotObject)
    | some _ => none := by
  unfold Fields.named Fields.declared?
  cases fields.named? "properties" with
  | none => rfl
  | some v =>
    cases v with
    | object declared => rfl
    | _ => simp only [Option.getD_some, Encounter.failure]; split <;> rfl

/-- Compiling a node under a type answers its own error, and then what is at its stops. -/
def AnsweredUnder (mode : Closedness) (fields : Fields) (type : Value) (p : String) : Prop :=
  Answers (((fields.typeError type p).map .refused).or
    (firstFailure ((fields.stopsUnder type p).flatMap Stop.encounters))) (compileTyped mode fields type p)

theorem answers_types {type : Value} {types : List Value} (hr : fields.reading = .typed type)
    (hparts : ∀ v ∈ fields.enteredUnder (.list types) p, Answered mode v.2) :
    AnsweredUnder mode fields (.list types) p := by
  rw [AnsweredUnder, compileTyped_list_eq_union hr]
  cases types with
  | nil =>
    refine answers_refusal ?_
    rw [Fields.copies, List.map_nil, compileUnion, compileBranches]
    rfl
  | cons t types => exact answers_union (List.cons_ne_nil _ _) (answered_of_listed hparts) _

theorem answers_text : AnsweredUnder mode fields (.text "string") p := by
  rw [AnsweredUnder, compileTyped, compileText]
  simp only [Fields.typeError, Fields.stopsUnder]
  cases hproblem : (fields.named "pattern").patternProblem? with
  | some problem => rw [compilePattern_of_problem hproblem]; rfl
  | none =>
    rw [Option.map_none, Option.map_none, Option.none_or, List.flatMap_singleton, Stop.encounters,
      firstFailure_cons]
    refine Answers.map ?_ _
    simp only [Encounter.failure]
    cases compilePattern (fields.named "pattern") (p ++ "/pattern") with
    | ok pattern => exact ⟨pattern, rfl⟩
    | error e => rfl

theorem answers_array (hparts : ∀ v ∈ fields.enteredUnder (.text "array") p, Answered mode v.2) :
    AnsweredUnder mode fields (.text "array") p := by
  rw [AnsweredUnder, compileTyped_array_eq]
  simp only [Fields.enteredUnder] at hparts
  cases hitems : fields.given? "items" with
  | none =>
    have hown : fields.typeError (.text "array") p = some ⟨.itemsMissing, p⟩ := by
      simp [Fields.typeError, hitems]
    rw [hown]
    exact answers_refusal rfl
  | some n =>
    have hown : fields.typeError (.text "array") p = none := by simp [Fields.typeError, hitems]
    have hstops : fields.stopsUnder (.text "array") p = [.enter (p ++ "/items", n)] := by
      simp [Fields.stopsUnder, Fields.enteredUnder, hitems]
    rw [hown, hstops, Option.map_none, Option.none_or, List.flatMap_singleton]
    exact (hparts (p ++ "/items", n) (by simp [hitems]) _).map _

theorem answers_object (hparts : ∀ v ∈ fields.enteredUnder (.text "object") p, Answered mode v.2) :
    AnsweredUnder mode fields (.text "object") p := by
  have hown : fields.typeError (.text "object") p = none := by
    simp only [Fields.typeError]
    exact if_pos (by decide)
  rw [AnsweredUnder, hown, compileTyped_object_eq]
  simp only [Fields.enteredUnder, Fields.propertyFields] at hparts
  simp only [Fields.stopsUnder, Fields.propertyFields, List.flatMap_cons, List.flatMap_append, Stop.encounters,
    List.flatMap_nil, List.singleton_append, List.append_nil, firstFailure_cons, failure_properties]
  cases hdeclared : fields.declared? with
  | none => rfl
  | some declared =>
    rw [hdeclared, Option.getD_some] at hparts
    simp only [Option.map_none, Option.none_or, Option.getD_some, firstFailure_append]
    refine (answers_properties hparts).bind fun Vs _ => ?_
    rw [firstFailure_cons, Encounter.failure]
    cases nameSet (fields.named "required") with
    | ok required => exact ⟨_, rfl⟩
    | error f => rfl

theorem answers_scalar {s : Scalar} (hstring : Value.scalar s ≠ .text "string")
    (harray : Value.scalar s ≠ .text "array") (hobject : Value.scalar s ≠ .text "object") :
    AnsweredUnder mode fields (.scalar s) p := by
  have hown := typeError_eq_of_ne fields p hstring harray
  have hstops : fields.stopsUnder (.scalar s) p = [] := by
    unfold Fields.stopsUnder
    split
    next heq => exact absurd heq hstring
    next heq => exact absurd heq hobject
    next => rw [enteredUnder_eq_nil harray hobject, List.map_nil]
  rw [AnsweredUnder, hstops, compileTyped.eq_def]
  split
  next heq => cases heq
  next heq => rw [hown, heq, if_pos (by decide)]; exact ⟨_, rfl⟩
  next heq => exact absurd heq hstring
  next heq => rw [hown, heq, if_pos (by decide)]; exact ⟨_, rfl⟩
  next heq => rw [hown, heq, if_pos (by decide)]; exact ⟨_, rfl⟩
  next heq => rw [hown, heq, if_pos (by decide)]; exact ⟨_, rfl⟩
  next heq => rw [hown, heq, if_pos (by decide)]; exact ⟨_, rfl⟩
  next heq => exact absurd heq harray
  next heq => exact absurd heq hobject
  next hnull _ hnumber hinteger hboolean hnulls _ _ =>
    have hunknown : Value.scalar s ∉ Value.null :: Draft.names.map Value.text := fun hmem => by
      simp only [Draft.names, List.map_cons, List.map_nil, List.mem_cons, List.not_mem_nil,
        or_false] at hmem
      rcases hmem with h | h | h | h | h | h | h | h
      exacts [hnull h, harray h, hboolean h, hinteger h, hnulls h, hnumber h, hobject h, hstring h]
    rw [hown, if_neg hunknown]
    exact answers_refusal rfl

theorem answers_typed {type : Value} (hr : fields.reading = .typed type)
    (hparts : ∀ v ∈ fields.enteredUnder type p, Answered mode v.2) : AnsweredUnder mode fields type p := by
  cases type with
  | list types => exact answers_types hr hparts
  | tuple types | object types =>
    refine answers_refusal ?_
    simp only [compileTyped]
    rfl
  | scalar s =>
    by_cases hstring : Value.scalar s = .text "string"
    · rw [hstring]; exact answers_text
    by_cases harray : Value.scalar s = .text "array"
    · rw [harray] at hparts ⊢; exact answers_array hparts
    by_cases hobject : Value.scalar s = .text "object"
    · rw [hobject] at hparts ⊢; exact answers_object hparts
    exact answers_scalar hstring harray hobject

/-! ## Nodes -/

/-- A node answers its own error, and then what is at its stops. -/
theorem answers_fields (hparts : ∀ v ∈ Value.entered (.object fields) p, Answered mode v.2) :
    Answers (firstFailure (encounters (.object fields) p)) (compileFields mode fields p) := by
  rw [firstFailure_encounters, compileFields_eq]
  simp only [Value.ownError, Value.unlisted, Value.stops, Value.entered] at hparts ⊢
  cases hr : fields.reading with
  | typed type =>
    rw [hr] at hparts
    rw [show Reading.unlisted (.typed type) p = none from rfl, Option.or_none]
    exact answers_typed hr hparts
  | reference => exact answers_refusal rfl
  | literal v | free => exact ⟨_, rfl⟩
  | choices values =>
    cases values with
    | list vs =>
      rcases vs with _ | ⟨v, _ | ⟨w, vs⟩⟩
      · exact answers_refusal rfl
      · exact ⟨_, rfl⟩
      · simp only [compileEnum]
        split <;> exact ⟨_, rfl⟩
    | _ => exact answers_refusal rfl
  | union keyword nodes =>
    rw [hr] at hparts
    cases nodes with
    | list ns =>
      cases ns with
      | nil =>
        refine answers_refusal ?_
        simp only [compileUnion, compileBranches]
        rfl
      | cons n ns => exact answers_union (List.cons_ne_nil n ns) (answered_of_listed hparts) _
    | _ => exact answers_refusal (by simp only [compileUnion]; rfl)
  | all nodes =>
    rw [hr] at hparts
    cases nodes with
    | list ns => exact (answers_branches (answered_of_listed hparts) _ 0).map _
    | _ => exact answers_refusal rfl

end

/-- Compiling a node answers the first failure of what it comes upon. -/
theorem answered (mode : Closedness) : ∀ n : Value, Answered mode n
  | .object fields => fun p => by
    rw [compileNode]
    exact answers_fields fun v hv => answered mode v.2
  | .bool b => fun p => by
    rw [firstFailure_encounters]
    cases b <;> rw [compileNode] <;> exact ⟨_, rfl⟩
  | .null | .number _ | .text _ | .scalar (.bytes _) | .scalar (.date _) | .scalar (.moment _) =>
    fun p => by
      rw [firstFailure_encounters]
      exact answers_refusal (by simp only [compileNode]; rfl)
  | .list _ | .tuple _ => fun p => by
    rw [firstFailure_encounters]
    exact answers_refusal (by simp only [compileNode]; rfl)
termination_by n => sizeOf n
decreasing_by exact Value.object.sizeOf_spec fields ▸ Value.sizeOf_entered hv

/-- **Compiling ends with the first failure of what it comes upon.** Where nothing that compiling a
    document comes upon fails, there is a validator, under every default. -/
theorem compile_answers (d : Value) (mode : Closedness) (p : String) :
    Answers (firstFailure (encounters d p)) (compile d mode p) :=
  answered mode d p

/-- Compiling a document comes to this: nothing that it comes upon before fails. -/
def Value.ComesTo (d : Value) (p : String) (e : Encounter) : Prop :=
  ∃ before after, encounters d p = before ++ e :: after ∧ ∀ x ∈ before, x.failure = none

theorem Value.ComesTo.mem {d : Value} {p : String} {e : Encounter} (h : d.ComesTo p e) : e ∈ encounters d p := by
  obtain ⟨before, after, hes, -⟩ := h
  simp [hes]

/-- Compiling ends with a failure exactly if it comes to something that fails so. -/
theorem compile_eq_error_iff {d : Value} {p : String} {e : CompileFailure} :
    compile d mode p = .error e ↔ ∃ x, d.ComesTo p x ∧ x.failure = some e := by
  rw [(compile_answers d mode p).eq_error_iff, firstFailure_eq_some_iff]
  constructor
  · rintro ⟨before, x, after, hes, hbefore, hx⟩; exact ⟨x, ⟨before, after, hes, hbefore⟩, hx⟩
  · rintro ⟨x, ⟨before, after, hes, hbefore⟩, hx⟩; exact ⟨before, x, after, hes, hbefore, hx⟩

end

end SchemaGuard
