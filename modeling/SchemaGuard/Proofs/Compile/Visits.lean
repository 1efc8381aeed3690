/-
  SchemaGuard — the nodes that compiling visits.

  Compiling a node visits the schemas below it that its reading asks for (`Value.entered`), so
  compiling a document visits its nodes depth-first in document order (`visits`).

  * `n.ownError p`: the reason, if any, for which the node by itself has no validator;
  * `n.Fit`: the keywords that compiling the node consults have values of the types that the
    meta-schema demands; so they have in documents that it admits (`fits_of_check`).
-/
import Mathlib
import SchemaGuard.Proofs.Compile.Retyping
import SchemaGuard.Proofs.Compile.Safety

namespace SchemaGuard

/-! ## Visited nodes -/

/-- The schemas of a list, at `base/i`, `base/(i + 1)` and so on. -/
def listedAt (base : String) (nodes : List Value) (i : Nat) : List (String × Value) :=
  (nodes.zipIdx i).map fun n => (base ++ "/" ++ toString n.2, n.1)

/-- The schemas of properties, at the places of their names. -/
def propertiesAt (base : String) (properties : Fields) : List (String × Value) :=
  properties.filterMap fun f =>
    match f.1 with
    | .text name => some (Pointer.child base name, f.2)
    | _ => none

/-- The copies of a node that stand for it under each of several types. -/
def Fields.copies (fields : Fields) (types : List Value) : List Value :=
  types.map fun t => .object (fields.set "type" t)

/-- The properties of a node as an object. -/
def Fields.propertyFields (fields : Fields) : Fields := fields.declared?.getD []

/-- The schemas in the list of a reading. -/
def Reading.entered (r : Reading) (p : String) : List (String × Value) :=
  match r with
  | .union keyword (.list nodes) => listedAt (p ++ "/" ++ keyword) nodes 0
  | .all (.list nodes) => listedAt (p ++ "/allOf") nodes 0
  | _ => []

/-- The schemas that a node under a type asks for. -/
def Fields.enteredUnder (fields : Fields) (type : Value) (p : String) : List (String × Value) :=
  match type with
  | .list types => listedAt (p ++ "/type") (fields.copies types) 0
  | .text "array" => (fields.given? "items").toList.map fun n => (p ++ "/items", n)
  | .text "object" => propertiesAt (p ++ "/properties") fields.propertyFields
  | _ => []

/-- The schemas directly below a node that its reading asks for, in document order. -/
def Value.entered (n : Value) (p : String) : List (String × Value) :=
  match n with
  | .object fields =>
    match Fields.reading fields with
    | .typed type => Fields.enteredUnder fields type p
    | r => r.entered p
  | _ => []

section
variable {base p q : String} {n m : Value}

theorem mem_of_mem_listedAt {nodes : List Value} {i : Nat} (h : (q, n) ∈ listedAt base nodes i) :
    n ∈ nodes := by
  obtain ⟨x, hx, heq⟩ := List.mem_map.1 h
  cases heq
  exact List.fst_mem_of_mem_zipIdx hx

theorem exists_mem_listedAt {nodes : List Value} {n : Value} (h : n ∈ nodes) (base : String) :
    ∃ q, (q, n) ∈ listedAt base nodes 0 := by
  obtain ⟨i, hi⟩ := List.mem_iff_getElem?.1 h
  exact ⟨_, List.mem_map.2 ⟨(n, i), List.mk_mem_zipIdx_iff_getElem?.2 hi, rfl⟩⟩

theorem propertiesAt_cons (base name : String) (n : Value) (properties : Fields) :
    propertiesAt base ((.text name, n) :: properties) =
      (Pointer.child base name, n) :: propertiesAt base properties :=
  rfl

theorem exists_of_mem_propertiesAt {properties : Fields} (h : (q, n) ∈ propertiesAt base properties) :
    ∃ f ∈ properties, n = f.2 := by
  obtain ⟨⟨key, m⟩, hf, heq⟩ := List.mem_filterMap.1 h
  split at heq
  · cases heq; exact ⟨_, hf, rfl⟩
  · cases heq

/-- What is below a node is smaller, copies of the node included. -/
theorem Value.sizeOf_entered (h : (q, m) ∈ n.entered p) : sizeOf m < sizeOf n := by
  unfold entered at h
  split at h
  next fields =>
    have hlt : ∀ m : Value, sizeOf m < sizeOf fields → sizeOf m < sizeOf (Value.object fields) :=
      fun m hm => by simp only [Value.object.sizeOf_spec]; omega
    have hfrom := Fields.reading_isFrom fields
    split at h
    next type hr =>
      rw [hr] at hfrom
      unfold Fields.enteredUnder at h
      split at h
      next types =>
        obtain ⟨t, ht, rfl⟩ := List.mem_map.1 (mem_of_mem_listedAt h)
        have hsmall : sizeOf t < sizeOf (Value.list types) := by
          have := List.sizeOf_lt_of_mem ht
          simp only [Value.list.sizeOf_spec]; omega
        have := Fields.sizeOf_set_lt hfrom hsmall
        simp only [Value.object.sizeOf_spec]; omega
      next =>
        obtain ⟨node, hnode, heq⟩ := List.mem_map.1 h
        cases heq
        rw [Option.mem_toList, Fields.given?_eq_some_iff] at hnode
        exact hlt _ (Fields.sizeOf_named? hnode.1)
      next =>
        obtain ⟨f, hf, rfl⟩ := exists_of_mem_propertiesAt h
        rw [Fields.propertyFields] at hf
        cases hd : Fields.declared? fields with
        | none => rw [hd] at hf; cases hf
        | some declared => rw [hd] at hf; exact hlt _ (Fields.sizeOf_declared hd hf)
      next => cases h
    next =>
      unfold Reading.entered at h
      split at h
      next hr =>
        rw [hr] at hfrom
        exact Fields.sizeOf_lt_node_of_mem hfrom.2 (mem_of_mem_listedAt h)
      next hr =>
        rw [hr] at hfrom
        exact Fields.sizeOf_lt_node_of_mem hfrom (mem_of_mem_listedAt h)
      next => cases h
  next => cases h

end

/-- The nodes that compiling a document at a pointer visits, with their pointers: a node, then
    those below it, in document order. -/
def visits (n : Value) (p : String) : List (String × Value) :=
  (p, n) :: (n.entered p).attach.flatMap fun v => visits v.1.2 v.1.1
termination_by sizeOf n
decreasing_by exact Value.sizeOf_entered v.2

/-- The nodes visited from several. -/
def visitsAll (vs : List (String × Value)) : List (String × Value) :=
  vs.flatMap fun v => visits v.2 v.1

theorem visits_eq (n : Value) (p : String) : visits n p = (p, n) :: visitsAll (n.entered p) := by
  rw [visits, visitsAll, List.flatMap_subtype (g := fun v : String × Value => visits v.2 v.1) fun _ _ => rfl,
    List.unattach_attach]

theorem mem_visits_iff {d : Value} {p : String} {v : String × Value} :
    v ∈ visits d p ↔ v = (p, d) ∨ ∃ w ∈ d.entered p, v ∈ visits w.2 w.1 := by
  rw [visits_eq, List.mem_cons, visitsAll, List.mem_flatMap]

theorem visitsAll_cons (q : String) (n : Value) (vs : List (String × Value)) :
    visitsAll ((q, n) :: vs) = visits n q ++ visitsAll vs :=
  List.flatMap_cons

/-- What is visited from a visited node is visited. -/
theorem visits_subset : ∀ {d : Value} {p q : String} {n : Value}, (q, n) ∈ visits d p →
    visits n q ⊆ visits d p := by
  intro d
  induction h : sizeOf d using Nat.strong_induction_on generalizing d with
  | _ size ih =>
    intro p q n hn v hv
    rcases mem_visits_iff.1 hn with heq | ⟨w, hw, hnw⟩
    · cases heq; exact hv
    · have hlt := Value.sizeOf_entered hw
      exact mem_visits_iff.2 (Or.inr ⟨w, hw, ih _ (h ▸ hlt) rfl hnw hv⟩)

/-! ## Nodes by themselves -/

section
variable [CharacterNames]

/-- Why the pattern of a node cannot be read, if so. -/
def Value.patternProblem? : Value → Option SchemaProblem
  | .text s =>
    match Pattern.ofText (Pattern.anchorEnd s.toList) with
    | .error (.refused r) => some (.invalidPattern (.text s) (r.message (Pattern.anchorEnd s.toList)))
    | _ => none
  | _ => none

/-- Why a node by itself has no validator under a type, if so. -/
def Fields.typeError (fields : Fields) (type : Value) (p : String) : Option SchemaError :=
  match type with
  | .list [] => some ⟨.unionEmpty, p ++ "/type"⟩
  | .list _ => none
  | .text "string" => (fields.named "pattern").patternProblem?.map fun problem => ⟨problem, p ++ "/pattern"⟩
  | .text "array" => if (fields.given? "items").isNone then some ⟨.itemsMissing, p⟩ else none
  | type => if type ∈ Value.null :: Draft.names.map Value.text then none else some ⟨.unsupportedType type, p⟩

/-- Why a node by itself has no validator by its reading, if so. -/
def Reading.error (r : Reading) (p : String) : Option SchemaError :=
  match r with
  | .reference => some ⟨.reference, p⟩
  | .choices (.list []) => some ⟨.enumEmpty, p⟩
  | .union keyword (.list []) => some ⟨.unionEmpty, p ++ "/" ++ keyword⟩
  | _ => none

/-- Why a node by itself has no validator, if so: it is neither an object nor a truth value, or
    it is a reference, an empty `enum`, an empty union or list of types, a pattern that cannot
    be read, an array without items, or of an unknown type. -/
def Value.ownError (n : Value) (p : String) : Option SchemaError :=
  match n with
  | .bool _ => none
  | .object fields =>
    match Fields.reading fields with
    | .typed type => Fields.typeError fields type p
    | r => r.error p
  | _ => some ⟨.notASchema, p⟩

/-- The first of the nodes with an error of its own gives it. -/
def firstError (vs : List (String × Value)) : Option SchemaError :=
  vs.findSome? fun v => v.2.ownError v.1

theorem firstError_append (vs ws : List (String × Value)) :
    firstError (vs ++ ws) = (firstError vs).or (firstError ws) :=
  List.findSome?_append

theorem firstError_cons (q : String) (n : Value) (vs : List (String × Value)) :
    firstError ((q, n) :: vs) = (n.ownError q).or (firstError vs) := by
  cases h : n.ownError q <;> simp [firstError, h]

/-- What compiling a node under a type consults has the types that the meta-schema demands, and
    its pattern can be read or is refused. -/
def Fields.FitUnder (fields : Fields) (type : Value) : Prop :=
  match type with
  | .text "string" => ∀ v, fields.named? "pattern" = some v →
      ∃ s, v = .text s ∧ ∀ f, Pattern.ofText (Pattern.anchorEnd s.toList) ≠ .error (.fault f)
  | .text "object" =>
      (∀ v, fields.named? "properties" = some v →
        ∃ properties : Fields, v = .object properties ∧ ∀ f ∈ properties, f.1.isText) ∧
      ∀ v, fields.named? "required" = some v →
        ∃ names, v = .list names ∧ ∀ name ∈ names, ∃ s, name = .text s
  | _ => True

/-- The keywords that compiling a node consults have values of the types that the meta-schema
    demands. -/
def Value.Fit : Value → Prop
  | .object fields =>
    match Fields.reading fields with
    | .choices v | .union _ v | .all v => ∃ vs, v = .list vs
    | .typed type => Fields.FitUnder fields type
    | _ => True
  | _ => True

/-- All visited nodes are fit. -/
def Fits (vs : List (String × Value)) : Prop := ∀ v ∈ vs, v.2.Fit

end

/-! ## Visitable nodes -/

/-- A node that is visited in a document: one of its schemas, or a copy of one under a type. -/
def Visitable (d n : Value) : Prop :=
  d.HasSchema n ∨ ∃ fields type t, d.HasSchema (.object fields) ∧ Fields.reading fields = .typed type ∧
    n = .object (Fields.set fields "type" t)

namespace Fields

section
variable (fields : Fields) (t : Value)

theorem items_set_type : (fields.set "type" t).given? "items" = fields.given? "items" := by
  rw [given?, given?, named?_set_type (by decide)]

theorem declared?_set_type : (fields.set "type" t).declared? = fields.declared? := by
  rw [declared?, declared?, named?_set_type (by decide)]

theorem propertyFields_set_type : (fields.set "type" t).propertyFields = fields.propertyFields := by
  rw [propertyFields, propertyFields, declared?_set_type]

theorem copies_set_type (types : List Value) : (fields.set "type" t).copies types = fields.copies types := by
  simp only [copies, set_set]

/-- What a node asks for under a type does not depend on its own type. -/
theorem enteredUnder_set_type (type : Value) (p : String) :
    (fields.set "type" t).enteredUnder type p = fields.enteredUnder type p := by
  unfold enteredUnder
  split
  next => rw [copies_set_type]
  next => rw [items_set_type]
  next => rw [propertyFields_set_type]
  next => rfl

end

end Fields

section
variable {d : Value} {fields : Fields} {p : String}

theorem Visitable.enteredUnder (h : d.HasSchema (.object fields)) {type : Value}
    (hr : fields.reading = .typed type) (t : Value) :
    ∀ v ∈ fields.enteredUnder t p, Visitable d v.2 := by
  unfold Fields.enteredUnder
  rintro ⟨q, n⟩ hv
  split at hv
  next =>
    obtain ⟨t, -, rfl⟩ := List.mem_map.1 (mem_of_mem_listedAt hv)
    exact Or.inr ⟨fields, type, t, h, hr, rfl⟩
  next =>
    obtain ⟨m, hm, heq⟩ := List.mem_map.1 hv
    cases heq
    rw [Option.mem_toList, Fields.given?_eq_some_iff] at hm
    exact Or.inl (.items h hm.1)
  next =>
    obtain ⟨f, hf, rfl⟩ := exists_of_mem_propertiesAt hv
    rw [Fields.propertyFields] at hf
    cases hdeclared : fields.declared? with
    | none => rw [hdeclared] at hf; cases hf
    | some declared => rw [hdeclared] at hf; exact Or.inl (.property h hdeclared hf)
  next => cases hv

/-- What a visitable node asks for is visitable. -/
theorem Visitable.entered {n : Value} (h : Visitable d n) : ∀ v ∈ n.entered p, Visitable d v.2 := by
  rcases h with h | ⟨fields, type, t, h, hr, rfl⟩
  · rintro ⟨q, m⟩ hm
    unfold Value.entered at hm
    split at hm
    next fields =>
      have hfrom := Fields.reading_isFrom fields
      split at hm
      next type hr => exact Visitable.enteredUnder h hr type _ hm
      next =>
        unfold Reading.entered at hm
        split at hm
        next keyword nodes hr =>
          rw [hr] at hfrom
          have hk : keyword ∈ Draft.combiners := by
            rcases hfrom.1 with rfl | rfl <;> simp [Draft.combiners]
          exact Or.inl (.combined h hk hfrom.2 (mem_of_mem_listedAt hm))
        next hr =>
          rw [hr] at hfrom
          exact Or.inl (.combined h (by simp [Draft.combiners]) hfrom (mem_of_mem_listedAt hm))
        next => cases hm
    next => cases hm
  · simp only [Value.entered, Fields.reading_set_type hr, Fields.enteredUnder_set_type]
    exact Visitable.enteredUnder h hr t

/-- All nodes visited in a document are visitable. -/
theorem visitable_of_mem_visits {n : Value} (h : Visitable d n) : ∀ v ∈ visits n p, Visitable d v.2 := by
  intro v hv
  induction hs : sizeOf n using Nat.strong_induction_on generalizing n p with
  | _ size ih =>
    rcases mem_visits_iff.1 hv with rfl | ⟨w, hw, hvw⟩
    · exact h
    · exact ih _ (hs ▸ Value.sizeOf_entered hw) (h.entered w hw) hvw rfl

end

/-! ## Checked documents -/

section
variable [CharacterNames] {d : Value} {fields : Fields}

theorem Fields.fitUnder_set_type (t type : Value) : (fields.set "type" t).FitUnder type ↔ fields.FitUnder type := by
  unfold FitUnder
  split
  next => rw [named?_set_type (by decide)]
  next => rw [named?_set_type (by decide), named?_set_type (by decide)]
  next => exact Iff.rfl

variable {draft : Draft} (hd : d.IsJson) (hdraft : draft.Admits d) (hp : d.PatternsRead)
include hd hdraft hp

theorem Value.HasSchema.fitUnder (h : d.HasSchema (.object fields)) (type : Value) : fields.FitUnder type := by
  have hadmits := h.admits hdraft nofun
  unfold Fields.FitUnder
  split
  next =>
    intro v hv
    obtain ⟨s, rfl⟩ := hadmits.pattern hv
    exact ⟨s, rfl, fun f => hp fields s f h hv⟩
  next =>
    refine ⟨fun v hv => ?_, fun v hv => hadmits.required hv⟩
    obtain ⟨properties, rfl⟩ := hadmits.properties hv
    have hdeclared : fields.declared? = some properties := by rw [Fields.declared?, hv]
    exact ⟨properties, rfl, fun f hf => ((h.isJson hd).declared hdeclared f hf).1⟩
  next => trivial

theorem Visitable.fit {n : Value} (h : Visitable d n) : n.Fit := by
  rcases h with h | ⟨fields, type, t, h, hr, rfl⟩
  · unfold Value.Fit
    split
    next fields =>
      have hadmits := h.admits hdraft nofun
      have hfrom := Fields.reading_isFrom fields
      split
      next hr => rw [hr] at hfrom; exact hadmits.enum hfrom
      next keyword v hr =>
        rw [hr] at hfrom
        have hk : keyword ∈ Draft.combiners := by
          rcases hfrom.1 with rfl | rfl <;> simp [Draft.combiners]
        obtain ⟨nodes, hnodes, -⟩ := hadmits.combiner hk hfrom.2
        exact ⟨nodes, hnodes⟩
      next hr =>
        rw [hr] at hfrom
        obtain ⟨nodes, hnodes, -⟩ := hadmits.combiner (by simp [Draft.combiners]) hfrom
        exact ⟨nodes, hnodes⟩
      next => exact h.fitUnder hd hdraft hp _
      next => trivial
    next => trivial
  · simp only [Value.Fit, Fields.reading_set_type hr, Fields.fitUnder_set_type]
    exact h.fitUnder hd hdraft hp _

end

/-- All nodes visited in a document are fit, if the meta-schema of a dialect other than draft 3
    admits it and its patterns can be read or are refused. -/
theorem fits_of_check [CharacterNames] {d : Value} (hd : d.IsJson) {draft : Draft} (hdraft : draft ≠ .three)
    {q : String} (hs : draft.check d q = .ok ()) (hp : d.PatternsRead) (p : String) : Fits (visits d p) :=
  fun v hv => (visitable_of_mem_visits (Or.inl .self) v hv).fit hd (Draft.admits_of_check hdraft hs) hp

end SchemaGuard
