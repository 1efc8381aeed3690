/-
  SchemaGuard — which node of a schema is to blame.

  In a document whose visited nodes are fit, all that compiling comes upon and fails at is the
  first error that one of these nodes has by itself (`firstFailure_of_fits`).

  Main result: `compile_blame`.
-/
import Mathlib
import SchemaGuard.Proofs.Compile.Encounters
import SchemaGuard.Proofs.Compile.Unvisited

namespace SchemaGuard

/-! ## Fit nodes -/

section
variable [CharacterNames] {fields : Fields} {n : Value} {p : String}

/-- What is read as a list in a fit node is one. -/
theorem Value.Fit.unlisted_eq_none (h : n.Fit) : n.unlisted p = none := by
  cases n with
  | object fields =>
    simp only [Value.Fit, Value.unlisted] at h ⊢
    cases hr : Fields.reading fields with
    | choices v | union _ v | all v =>
      rw [hr] at h
      obtain ⟨vs, rfl⟩ := h
      rfl
    | _ => rfl
  | _ => rfl

/-- A fit pattern fails only where it is refused. -/
theorem failure_pattern_eq_none (hfit : fields.FitUnder (.text "string"))
    (hproblem : (fields.named "pattern").patternProblem? = none) (q : String) :
    (Encounter.pattern (fields.named "pattern") q).failure = none := by
  unfold Fields.named at hproblem ⊢
  cases hsource : fields.named? "pattern" with
  | none => rfl
  | some v =>
    obtain ⟨s, rfl, hs⟩ := hfit v hsource
    rw [hsource, Option.getD_some, Value.patternProblem?] at hproblem
    rw [Option.getD_some, failure_pattern_text]
    cases hread : Pattern.ofText (Pattern.anchorEnd s.toList) with
    | ok pattern => rfl
    | error e =>
      cases e with
      | refused r => simp only [hread] at hproblem; cases hproblem
      | fault f => exact absurd hread (hs f)

theorem failure_properties_eq_none (hfit : fields.FitUnder (.text "object")) :
    (Encounter.properties (fields.named "properties")).failure = none := by
  unfold Fields.named
  cases hproperties : fields.named? "properties" with
  | none => rfl
  | some v => obtain ⟨properties, rfl, -⟩ := hfit.1 v hproperties; rfl

theorem failure_required_eq_none (hfit : fields.FitUnder (.text "object")) :
    (Encounter.required (fields.named "required")).failure = none := by
  unfold Fields.named
  cases hrequired : fields.named? "required" with
  | none => rfl
  | some v =>
    obtain ⟨names, rfl, hnames⟩ := hfit.2 v hrequired
    obtain ⟨required, hset, -⟩ := exists_nameSet hnames
    rw [Option.getD_some, Encounter.failure, hset]

/-- The property names of a fit node are texts. -/
theorem isText_of_fit (hfit : fields.FitUnder (.text "object")) : ∀ f ∈ fields.propertyFields, f.1.isText := by
  unfold Fields.propertyFields Fields.declared?
  cases hproperties : fields.named? "properties" with
  | none => exact nofun
  | some v => obtain ⟨properties, rfl, htexts⟩ := hfit.1 v hproperties; exact htexts

omit [CharacterNames] in
theorem not_look_of_mem_map_enter {vs : List (String × Value)} {e : Encounter} : .look e ∉ vs.map Stop.enter := by
  simp

/-- What is looked at from a fit node without an error of its own does not fail. -/
theorem Value.Fit.failure_eq_none (h : n.Fit) (hown : n.ownError p = none) {e : Encounter}
    (he : .look e ∈ n.stops p) : e.failure = none := by
  cases n with
  | object fields =>
    simp only [Value.Fit, Value.ownError, Value.stops] at h hown he
    cases hr : Fields.reading fields with
    | typed type =>
      simp only [hr] at h hown he
      unfold Fields.stopsUnder at he
      split at he
      next =>
        cases List.mem_singleton.1 he
        exact failure_pattern_eq_none h (Option.map_eq_none_iff.1 hown) _
      next =>
        rcases List.mem_cons.1 he with heq | he
        · cases heq; exact failure_properties_eq_none h
        rcases List.mem_append.1 he with he | he
        · obtain ⟨⟨key, m⟩, hf, heq⟩ := List.mem_map.1 he
          have hkey := isText_of_fit h _ hf
          cases key with
          | text name => cases heq
          | _ => cases hkey
        · cases List.mem_singleton.1 he
          exact failure_required_eq_none h
      next => exact absurd he not_look_of_mem_map_enter
    | _ => simp only [hr] at he; exact absurd he not_look_of_mem_map_enter
  | _ => cases he

/-- Where nothing looked at fails, the first failure is in what is entered. -/
theorem firstFailure_stops {stops : List Stop} (hlook : ∀ e, .look e ∈ stops → e.failure = none)
    (henter : ∀ v, .enter v ∈ stops →
      firstFailure (encounters v.2 v.1) = (firstError (visits v.2 v.1)).map .refused) :
    firstFailure (stops.flatMap Stop.encounters) =
      (firstError (visitsAll (stops.filterMap Stop.entered?))).map .refused := by
  induction stops with
  | nil => rfl
  | cons s stops ih =>
    have hrest := ih (fun e he => hlook e (List.mem_cons_of_mem _ he)) fun v hv => henter v (List.mem_cons_of_mem _ hv)
    rw [List.flatMap_cons, firstFailure_append, hrest]
    cases s with
    | look e =>
      rw [Stop.encounters, firstFailure_cons, hlook e List.mem_cons_self, List.filterMap_cons_none rfl]
      rfl
    | enter v =>
      rw [Stop.encounters, henter v List.mem_cons_self, ← Option.map_or, ← firstError_append, ← visitsAll_cons]
      rfl

/-- Where all nodes are fit, compiling comes upon the first of their errors and no other failure. -/
theorem firstFailure_of_fits {n : Value} {p : String} (h : Fits (visits n p)) :
    firstFailure (encounters n p) = (firstError (visits n p)).map .refused := by
  induction hs : sizeOf n using Nat.strong_induction_on generalizing n p with
  | _ size ih =>
    rw [visits_eq] at h ⊢
    obtain ⟨hself, hbelow⟩ := List.forall_mem_cons.1 h
    rw [firstFailure_encounters, firstError_cons, hself.unlisted_eq_none, Option.or_none]
    cases hown : n.ownError p with
    | some e => rfl
    | none =>
      rw [Option.map_none, Option.none_or, Option.none_or, ← n.filterMap_stops p]
      refine firstFailure_stops (fun e he => hself.failure_eq_none hown he) fun v hv => ?_
      have hentered := Value.mem_entered hv
      exact ih _ (hs ▸ Value.sizeOf_entered hentered)
        (fun w hw => hbelow w (List.mem_flatMap.2 ⟨v, hentered, hw⟩)) rfl

end

/-! ## The node to blame -/

theorem exists_of_firstError [CharacterNames] {vs : List (String × Value)} {e : SchemaError}
    (h : firstError vs = some e) :
    ∃ before q n after, vs = before ++ (q, n) :: after ∧ (∀ v ∈ before, v.2.ownError v.1 = none) ∧
      n.ownError q = some e := by
  obtain ⟨before, ⟨q, n⟩, after, hvs, hown, hbefore⟩ := List.findSome?_eq_some_iff.1 h
  exact ⟨before, q, n, after, hvs, hbefore, hown⟩

section
variable {d d' : Value} {mode : Closedness} {p : String}

theorem refused_iff [CharacterNames] (hfit : Fits (visits d p)) {e : SchemaError} :
    compile d mode p = .error (.refused e) ↔ firstError (visits d p) = some e := by
  rw [(compile_answers d mode p).eq_error_iff, firstFailure_of_fits hfit, Option.map_eq_some_iff]
  exact ⟨fun ⟨e', he', heq⟩ => CompileFailure.refused.inj heq ▸ he', fun he => ⟨e, he, rfl⟩⟩

end

/-- **The first unsupported node is to blame.** A document whose visited nodes are fit is refused
    exactly if one of them has an error of its own, and compiles otherwise. The refusal is the
    error of the first such node in document order, and that of compiling this node alone at
    its pointer. Nothing that is not visited has any part in it. -/
theorem compile_blame [CharacterNames] {d : Value} {p : String} (hfit : Fits (visits d p)) (mode : Closedness) :
    ((∃ e, compile d mode p = .error (.refused e)) ↔ ∃ v ∈ visits d p, (v.2.ownError v.1).isSome) ∧
    ((∀ v ∈ visits d p, v.2.ownError v.1 = none) → ∃ V, compile d mode p = .ok V) ∧
    (∀ e, compile d mode p = .error (.refused e) → ∃ before q n after,
      visits d p = before ++ (q, n) :: after ∧ (∀ v ∈ before, v.2.ownError v.1 = none) ∧
        n.ownError q = some e ∧ compile n mode q = .error (.refused e)) ∧
    ∀ d', SameVisited d d' → Fits (visits d' p) → ∀ e,
      compile d mode p = .error (.refused e) ↔ compile d' mode p = .error (.refused e) := by
  refine ⟨?_, fun hnone => ?_, fun e he => ?_, fun d' hsame hfit' e => ?_⟩
  · simp only [refused_iff hfit, firstError]
    rw [← Option.isSome_iff_exists, List.findSome?_isSome_iff]
  · have h := compile_answers d mode p
    rwa [firstFailure_of_fits hfit, firstError, List.findSome?_eq_none_iff.2 hnone] at h
  · obtain ⟨before, q, n, after, hvisits, hbefore, hown⟩ := exists_of_firstError ((refused_iff hfit).1 he)
    refine ⟨before, q, n, after, hvisits, hbefore, hown, ?_⟩
    have hmem : (q, n) ∈ visits d p := by simp [hvisits]
    rw [refused_iff fun v hv => hfit v (visits_subset hmem hv), visits_eq, firstError_cons, hown]
    rfl
  · rw [refused_iff hfit, refused_iff hfit', firstError_congr (hsame.visits p)]

/-- A reference, which has no validator. -/
def reference : Value := .object [(.text "$ref", .text "#")]

/-- Properties of which the third is a reference, and before it the second one allows arrays of
    nothing. -/
def tangledProperties (first : Value) : Value :=
  .object [(.text "a", first),
    (.text "b", .object [(.text "anyOf", .list [.bool true, .object [(.text "type", .text "array")]])]),
    (.text "c", reference)]

/-- Nothing, or an object with such properties, with references where no node is visited. -/
def tangled : Value :=
  .object [(.text "type", .list [.text "object", .text "null"]), (.text "not", reference),
    (.text "items", reference), (.text "properties", tangledProperties (.object [(.text "const", .null),
      (.text "anyOf", .list [reference])]))]

/-- The same without them. -/
def untangled : Value :=
  .object [(.text "type", .list [.text "object", .text "null"]),
    (.text "properties", tangledProperties (.object [(.text "const", .null)]))]

theorem compile_blame_tangled :
    let e : SchemaError := ⟨.itemsMissing, "#/type/0/properties/b/anyOf/1"⟩
    compile untangled .strip "#" = .error (.refused e) ∧
    ∃ before q n after, visits tangled "#" = before ++ (q, n) :: after ∧
      (∀ v ∈ before, v.2.ownError v.1 = none) ∧ n.ownError q = some e := by
  have hfit : ∀ d ∈ [tangled, untangled], Fits (visits d "#") := by
    have hchecked : ∀ d ∈ [tangled, untangled], d.IsJson ∧ Draft.seven.violations d = [] ∧
        ∀ x ∈ d.parts, x.readsPattern := by decide +kernel
    intro d hd
    obtain ⟨hjson, hviolations, hreads⟩ := hchecked d hd
    have hs : Draft.seven.check d "#" = .ok () := Draft.check_eq_ok_iff.2 hviolations
    exact fits_of_check hjson (by decide) hs (.of_parts hreads) "#"
  have hsame : SameVisited tangled untangled := by
    refine .typed rfl rfl (fun _ => rfl) (fun h => ?_) (fun _ => rfl) fun _ => ?_
    · obtain _ | ⟨ht, h⟩ := h
      rcases List.mem_pair.1 ht with rfl | rfl <;> exact absurd h.text_eq (by decide)
    · have hliteral : ∀ type, Reading.literal .null ≠ .typed type := fun type heq => by cases heq
      exact .cons (.reading rfl hliteral) (.cons (.self _) (.cons (.self _) .nil))
  have he : compile tangled .strip "#" = .error (.refused ⟨.itemsMissing, "#/type/0/properties/b/anyOf/1"⟩) := by
    cbv
  obtain ⟨-, -, hfirst, hunvisited⟩ := compile_blame (hfit tangled (by simp)) .strip
  obtain ⟨before, q, n, after, hvisits, hbefore, hown, -⟩ := hfirst _ he
  exact ⟨(hunvisited _ hsame (hfit untangled (by simp)) _).1 he, before, q, n, after, hvisits, hbefore, hown⟩

end SchemaGuard
