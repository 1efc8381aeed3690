/-
  SchemaGuard — where violations of meta-schemas are.

  * `x.Within v path`: the violation `x` is of a part of `v`, which stands at `path`, and its
    path leads to this part;
  * `within_of_mem`: so are all violations of a rule by JSON data, if its demands on property
    names are that they are texts.

  Main result: `schemaViolations_places`. The path of a violation leads to what violates the
  meta-schema. Its text is the steps as they are, not escaped, so it is read back as the path
  only where the keys on it are plain.
-/
import Mathlib
import SchemaGuard.Proofs.MetaSchema.Rules
import SchemaGuard.Proofs.Value.Location

namespace SchemaGuard

/-! ## Violations in a value -/

/-- A violation is of a part of a value at a path, where its own path leads. -/
def Violation.Within (v : Value) (path : Path) (x : Violation) : Prop :=
  ∃ rest, x.path = path ++ rest ∧ v.part? rest = some x.value

section
variable {v y : Value} {path : Path} {x : Violation}

theorem Violation.Within.here (breach : Breach) : Violation.Within v path ⟨path, v, breach⟩ :=
  ⟨[], (List.append_nil path).symm, rfl⟩

theorem Violation.Within.enter {step : Step} (h : x.Within y (path ++ [step])) (hy : v.enter? step = some y) :
    x.Within v path := by
  obtain ⟨rest, hpath, hpart⟩ := h
  refine ⟨step :: rest, by rw [hpath, List.append_assoc, List.singleton_append], ?_⟩
  rw [Value.part?_cons, hy, Option.bind_some, hpart]

end

namespace Rule

mutual
/-- Whether a rule demands of property names only that they are texts. -/
def asksTextNames : Rule → Bool
  | .names (.type ["string"]) => true
  | .names _ => false
  | .items rule | .values rule => rule.asksTextNames
  | .properties declared => asksTextNamesDeclared declared
  | .all rules | .someOf rules => asksTextNamesAll rules
  | _ => true
/-- Whether several rules demand only that. -/
def asksTextNamesAll : List Rule → Bool
  | [] => true
  | rule :: rules => rule.asksTextNames && asksTextNamesAll rules
/-- Whether the rules of declared properties demand only that. -/
def asksTextNamesDeclared : List (String × Rule) → Bool
  | [] => true
  | (_, rule) :: declared => rule.asksTextNames && asksTextNamesDeclared declared
end

theorem asksTextNames_of_all {rules : List Rule} (h : asksTextNamesAll rules) :
    ∀ rule ∈ rules, rule.asksTextNames := by
  induction rules with
  | nil => exact nofun
  | cons rule rules ih =>
    rw [asksTextNamesAll, Bool.and_eq_true] at h
    exact List.forall_mem_cons.2 ⟨h.1, ih h.2⟩

theorem asksTextNames_of_declared {declared : List (String × Rule)} (h : asksTextNamesDeclared declared) :
    ∀ d ∈ declared, d.2.asksTextNames := by
  induction declared with
  | nil => exact nofun
  | cons d declared ih =>
    rw [asksTextNamesDeclared, Bool.and_eq_true] at h
    exact List.forall_mem_cons.2 ⟨h.1, ih h.2⟩

section
variable {types : TypeRules} {nested : Value → Path → List Violation} {v : Value} {path : Path} {x : Violation}

theorem within_of_violationIf {violated : Bool} {breach : Breach}
    (hx : x ∈ violationIf violated path v breach) : x.Within v path := by
  unfold violationIf at hx
  split at hx
  · rw [List.mem_singleton.1 hx]
    exact .here breach
  · cases hx

/-- The keys of JSON data are texts, so a rule that only demands this finds nothing. -/
theorem violations_names_eq_nil [CharacterNames] {rule : Rule} (hrule : (names rule).asksTextNames) (hv : v.IsJson) :
    (names rule).violations types nested v path = [] := by
  unfold asksTextNames at hrule
  split at hrule
  next heq =>
    cases heq
    cases v with
    | object fields =>
      simp only [violations, List.flatMap_eq_nil_iff]
      intro f hf
      have htext := (Value.isJson_object.1 hv).2.1 f.1 (List.mem_map_of_mem hf)
      cases hkey : f.1 with
      | text name => simp [violationIf, Value.hasType]
      | _ => rw [hkey] at htext; cases htext
    | _ => simp only [violations]
  all_goals simp_all

/-- What a rule finds in JSON data is found where its path leads. -/
theorem within_of_mem [CharacterNames] (hnested : ∀ (w : Value) q, w.IsJson → ∀ x ∈ nested w q, x.Within w q)
    {rule : Rule}
    (hrule : rule.asksTextNames) (hv : v.IsJson) (hx : x ∈ rule.violations types nested v path) :
    x.Within v path := by
  induction rule using Rule.induction generalizing v path with
  | type | typeIn | listed =>
    simp only [violations] at hx
    exact within_of_violationIf hx
  | minItems | uniqueItems | pattern | companion =>
    simp only [violations] at hx
    split at hx
    · exact within_of_violationIf hx
    · cases hx
  | minimum limit exclusive =>
    simp only [violations] at hx
    split at hx
    · cases hx
    · split at hx <;> exact within_of_violationIf hx
  | items rule ih =>
    cases v with
    | list elements =>
      simp only [violations, List.mem_flatMap] at hx
      obtain ⟨e, he, hx⟩ := hx
      have hmem := List.fst_mem_of_mem_zipIdx he
      exact (ih hrule (Value.isJson_list.1 hv e.1 hmem) hx).enter (List.mem_zipIdx_iff_getElem?.1 he)
    | _ => simp only [violations] at hx; cases hx
  | properties declared ih =>
    cases v with
    | object fields =>
      simp only [violations, violationsDeclared_eq_flatMap, violationsNamed, List.mem_flatMap] at hx
      obtain ⟨d, hd, y, hy, hx⟩ := hx
      rw [Option.mem_toList] at hy
      have hjson := hv.named? hy
      exact (ih d hd (asksTextNames_of_declared hrule d hd) hjson hx).enter hy
    | _ => simp only [violations] at hx; cases hx
  | values rule ih =>
    cases v with
    | object fields =>
      simp only [violations, List.mem_flatMap] at hx
      obtain ⟨⟨key, y⟩, hf, hx⟩ := hx
      obtain ⟨hnodup, htexts, hparts⟩ := Value.isJson_object.1 hv
      have htext := htexts key (List.mem_map_of_mem hf)
      cases key with
      | text name =>
        have hy : Fields.named? fields name = some y := by
          rw [Fields.named?_eq_lookup, Fields.lookup_eq_some_iff hnodup]
          exact hf
        exact (ih hrule (hparts _ hf) hx).enter hy
      | _ => cases htext
    | _ => simp only [violations] at hx; cases hx
  | names rule ih =>
    rw [violations_names_eq_nil hrule hv] at hx
    cases hx
  | all rules ih =>
    simp only [violations, violationsAll_eq_flatMap, List.mem_flatMap] at hx
    obtain ⟨rule, hr, hx⟩ := hx
    exact ih rule hr (asksTextNames_of_all hrule rule hr) hv hx
  | someOf rules ih =>
    simp only [violations] at hx
    exact within_of_violationIf hx
  | schema =>
    simp only [violations] at hx
    exact hnested v path hv x hx

theorem within_of_mem_violationsIn [CharacterNames] {rule : Rule} (hrule : rule.asksTextNames) {levels : Nat}
    (hv : v.IsJson)
    (hx : x ∈ rule.violationsIn types levels v path) : x.Within v path := by
  induction levels generalizing v path x with
  | zero =>
    rw [violationsIn, List.mem_singleton] at hx
    rw [hx]
    exact .here .tooDeep
  | succ levels ih =>
    rw [violationsIn] at hx
    exact within_of_mem (fun w q hw x hx => ih hw hx) hrule hv hx

end

end Rule

/-- All that the meta-schemas demand of property names is that they are texts. -/
theorem Draft.asksTextNames_rule (draft : Draft) : draft.rule.asksTextNames := by
  cases draft <;> decide

/-! ## Violations of documents -/

section
variable {d : Value} {vs : List Violation}

/-- The path of a violation leads to what violates the meta-schema. -/
theorem Draft.part?_of_mem_sortedViolations [CharacterNames] (draft : Draft) (hd : d.IsJson) {x : Violation}
    (hx : x ∈ draft.sortedViolations d) : d.part? x.path = some x.value := by
  obtain ⟨rest, hpath, hpart⟩ :=
    Rule.within_of_mem_violationsIn draft.asksTextNames_rule hd (List.mem_mergeSort.1 hx)
  rwa [hpath, List.nil_append]

theorem schemaViolations_eq_ok_iff [CharacterNames] : schemaViolations d = .ok vs ↔
    ∃ draft, Draft.ofDocument d = .ok draft ∧ vs = draft.sortedViolations d := by
  unfold schemaViolations
  cases Draft.ofDocument d with
  | error f => simp [bind, Except.bind]
  | ok draft => simp [bind, Except.bind, pure, Except.pure, eq_comm]

/-- **Violations are located by their paths, but not always by their places.** The path of each
    violation leads to the part of the document that violates the meta-schema. The place that is
    told is read back in the document as this path exactly if each of its keys is plain: without a
    slash and without `~0` and `~1`. And if two violations with different paths are told at one
    place, a key on one of the paths has a slash. -/
theorem schemaViolations_places [CharacterNames] (hd : d.IsJson) (h : schemaViolations d = .ok vs) :
    (∀ x ∈ vs, d.part? x.path = some x.value) ∧
    (∀ x ∈ vs, d.readPath? (Pointer.tokens x.place) = some x.path ↔
      ∀ s ∈ x.path, Pointer.IsPlain s.token) ∧
    ∀ x ∈ vs, ∀ y ∈ vs, x.place = y.place → x.path ≠ y.path →
      ∃ s ∈ x.path ++ y.path, '/' ∈ s.token.toList := by
  obtain ⟨draft, -, rfl⟩ := schemaViolations_eq_ok_iff.1 h
  have hpart : ∀ x ∈ draft.sortedViolations d, d.part? x.path = some x.value := fun x hx =>
    draft.part?_of_mem_sortedViolations hd hx
  have hplace : ∀ x : Violation, x.place = Pointer.joined (x.path.map Step.token) := fun x => by
    rw [Violation.place, Pointer.joined, List.map_map]
    rfl
  refine ⟨hpart, fun x hx => ?_, fun x hx y hy heq hne => ?_⟩
  · rw [hplace]
    exact Value.Locates.readPath?_joined_iff (Or.inl ⟨_, hpart x hx⟩)
  · by_contra hslash
    push Not at hslash
    rw [hplace, hplace] at heq
    exact hne (Value.Locates.joined_injective (Or.inl ⟨_, hpart x hx⟩) (Or.inl ⟨_, hpart y hy⟩) hslash heq)

end

/-- A document with two violations at places that are told alike. -/
def slashedDeclarations : Value :=
  .object [(.text "properties", .object [(.text "a/properties/b", .int 5),
    (.text "a", .object [(.text "properties", .object [(.text "b", .int 5)])])])]

theorem schemaViolations_places_slashedDeclarations : ∃ vs, ∃ x ∈ vs, ∃ y ∈ vs,
    schemaViolations slashedDeclarations = .ok vs ∧ x.place = "/properties/a/properties/b" ∧
    y.place = x.place ∧ x.path ≠ y.path ∧
    slashedDeclarations.readPath? (Pointer.tokens x.place) = some x.path ∧
    slashedDeclarations.readPath? (Pointer.tokens y.place) ≠ some y.path := by
  let breach : Breach := .type ["object", "boolean"]
  let x : Violation := ⟨[.key "properties", .key "a", .key "properties", .key "b"], .int 5, breach⟩
  let y : Violation := ⟨[.key "properties", .key "a/properties/b"], .int 5, breach⟩
  have hfound : Draft.violations .seven slashedDeclarations = [y, x] := by cbv
  have hvs : schemaViolations slashedDeclarations = .ok ([y, x].mergeSort placeLe) :=
    schemaViolations_eq_ok_iff.2 ⟨.seven, rfl, by rw [Draft.sortedViolations, hfound]⟩
  have hx : x ∈ [y, x].mergeSort placeLe := List.mem_mergeSort.2 (by simp)
  have hy : y ∈ [y, x].mergeSort placeLe := List.mem_mergeSort.2 (by simp)
  obtain ⟨-, hread, -⟩ := schemaViolations_places (by decide) hvs
  refine ⟨_, x, hx, y, hy, hvs, by decide, by decide, by decide, ?_, ?_⟩
  · rw [hread x hx]; decide
  · rw [Ne, hread y hy]; decide

end SchemaGuard
