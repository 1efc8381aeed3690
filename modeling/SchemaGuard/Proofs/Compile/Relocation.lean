/-
  SchemaGuard — schemas and values in other places.

  `Pointer.rebase p q` puts `q` in the place of `p` at the start of a pointer, and
  `Issue.relocated p q r` tells an issue about a schema at `p` and a whole value as one about
  the schema at `q` and the value at the path `r`.

  * `compile_rebase`: compiling at `q` is compiling at `p` with the pointers rebased;
  * `toldOf_of_check`: what a part of a tree finds wrong with a part of a value is what its
    schema finds on its own, relocated;
  * `exists_toldOf_properties`, `exists_toldOf_elements`: what a container passes on is what
    its parts find.

  Main result: `compile_relocation`.
-/
import Mathlib
import SchemaGuard.Proofs.Compile.Origins
import SchemaGuard.Proofs.Compile.Relabeling
import SchemaGuard.Proofs.Compile.Required
import SchemaGuard.Proofs.Compile.Trails

namespace SchemaGuard

open Validator

/-! ## Other bases -/

/-- A pointer with `q` in the place of the `p` at its start. -/
def Pointer.rebase (p q pointer : String) : String := q ++ String.ofList (pointer.toList.drop p.length)

theorem Pointer.rebase_append (p q x : String) : rebase p q (p ++ x) = q ++ x := by
  rw [rebase, String.toList_append, ← String.length_toList, List.drop_left, String.ofList_toList]

theorem Issue.mapPointers_mapPointers (f g : String → String) : ∀ i : Issue,
    (i.mapPointers f).mapPointers g = i.mapPointers (g ∘ f)
  | .mk pointer path finding causes => by
    have hcauses : (causes.map (mapPointers f)).map (mapPointers g) = causes.map (mapPointers (g ∘ f)) := by
      rw [List.map_map]
      exact List.map_congr_left fun i _ => mapPointers_mapPointers f g i
    rw [mapPointers, mapPointers, mapPointers, mapPointersAll_eq_map, mapPointersAll_eq_map,
      mapPointersAll_eq_map, hcauses, Function.comp_apply]

theorem Validator.mapPointers_mapPointers (f g : String → String) (V : Validator) :
    (V.mapPointers f).mapPointers g = V.mapPointers (g ∘ f) := by
  induction V with
  | union p branches ih =>
    simp only [mapPointers, mapPointersAll_eq_map, List.map_map, Function.comp_apply]
    exact congrArg _ (List.map_congr_left ih)
  | both p left right ihl ihr => simp only [mapPointers, ihl, ihr, Function.comp_apply]
  | list p items rules ih => simp only [mapPointers, ih, Function.comp_apply]
  | object p properties required closedness ih =>
    simp only [mapPointers, mapPointersProperties_eq_map, List.map_map, Function.comp_apply]
    refine congrArg (object _ · required closedness) (List.map_congr_left fun q hq => ?_)
    exact congrArg (Prod.mk q.1) (ih q hq)
  | _ => rfl

/-- An issue about a schema at `p` and a whole value, told of the schema at `q` and the value
    at `r`. -/
def Issue.relocated (p q : String) (r : Path) (i : Issue) : Issue :=
  (i.mapPointers (Pointer.rebase p q)).under r

section
variable {s : Value} {mode : Closedness} {p : String}

/-- Compiling at another pointer is compiling, with the pointers rebased. -/
theorem compile_rebase [CharacterNames] (s : Value) (mode : Closedness) (p q : String) :
    compile s mode q = relabeled (Pointer.rebase p q) (mapPointers (Pointer.rebase p q)) (compile s mode p) := by
  have hcomp : Pointer.rebase p q ∘ (p ++ ·) = (q ++ ·) := funext fun x => Pointer.rebase_append p q x
  have hp := compile_append s mode p ""
  have hq := compile_append s mode q ""
  rw [String.append_empty] at hp hq
  rw [hp, hq]
  rcases compile s mode "" with (e | f) | V
  · simp [relabeled, CompileFailure.relabel, Pointer.rebase_append]
  · rfl
  · simp [relabeled, mapPointers_mapPointers, hcomp]

/-- A schema that is refused is so at a pointer that starts with its own. -/
theorem exists_append_of_refused [CharacterNames] {e : SchemaError} (h : compile s mode p = .error (.refused e)) :
    ∃ x, e.pointer = p ++ x := by
  have hp := compile_append s mode p ""
  rw [String.append_empty, h] at hp
  rcases hbare : compile s mode "" with (e' | f) | V
  · rw [hbare] at hp
    cases hp
    exact ⟨e'.pointer, rfl⟩
  · rw [hbare] at hp; cases hp
  · rw [hbare] at hp; cases hp

/-! ## Parts on their own -/

/-- The schema `n`, compiled on its own at `q`, comes to a verdict on `x`; these are its issues,
    told of the schema at `b` and the value at `r`. -/
def ToldOf [CharacterNames] (mode : Closedness) (q : String) (n x : Value) (b : String) (r : Path)
    (told : List Issue) :
    Prop :=
  ∃ W verdict, compile n mode q = .ok W ∧ W.run x = .ok verdict ∧
    told = verdict.issues.map (Issue.relocated q b r)

variable {n x o : Value} {b : String} {r : Path} {issues : List Issue} {U : Validator}

/-- The issues of a check are those of the schema at the empty pointer and the value at the empty
    path, put behind the pointer and the path. -/
theorem exists_bare_issues [CharacterNames] (hU : compile n mode b = .ok U) (h : U.check x r = .ok (o, issues)) :
    ∃ bare : List Issue, issues = bare.map (fun i => (i.mapPointers (b ++ ·)).under r) ∧
      ∀ q, ∃ W, compile n mode q = .ok W ∧
        W.check x [] = .ok (o, bare.map (Issue.mapPointers (q ++ ·))) := by
  obtain ⟨V, hV, rfl⟩ := compile_eq_ok_iff.1 hU
  have happ := check_append (V.mapPointers (b ++ ·)) x r []
  rw [List.append_nil, h, check_mapPointers] at happ
  rcases hbare : V.check x [] with f | ⟨o', bare⟩
  · rw [hbare] at happ; cases happ
  · rw [hbare] at happ
    cases happ
    refine ⟨bare, by simp [Prod.map], fun q => ⟨V.mapPointers (q ++ ·), ?_, ?_⟩⟩
    · exact compile_eq_ok_iff.2 ⟨V, hV, rfl⟩
    · rw [check_mapPointers, hbare]; rfl

/-- What a part of a tree finds wrong is what its schema finds on its own, wherever that is
    compiled, relocated. -/
theorem toldOf_of_check [CharacterNames] (hU : compile n mode b = .ok U) (h : U.check x r = .ok (o, issues))
    (q : String) :
    ToldOf mode q n x b r issues := by
  obtain ⟨bare, rfl, hbare⟩ := exists_bare_issues hU h
  obtain ⟨W, hW, hcheck⟩ := hbare q
  have hcomp : Pointer.rebase q b ∘ (q ++ ·) = (b ++ ·) := funext fun x => Pointer.rebase_append q b x
  obtain ⟨verdict, hverdict⟩ := settles_iff_run.1 ⟨_, hcheck⟩
  obtain ⟨o', ho⟩ := exists_check_of_run hverdict
  have hissues : verdict.issues = bare.map (Issue.mapPointers (q ++ ·)) := by
    exact (Prod.mk.inj (Except.ok.inj (ho.symm.trans hcheck))).2
  refine ⟨W, verdict, hW, hverdict, ?_⟩
  rw [hissues, List.map_map]
  refine List.map_congr_left fun i _ => ?_
  rw [Function.comp_apply, Issue.relocated, Issue.mapPointers_mapPointers, hcomp]

/-- A part of a tree reports at pointers that start with its own. -/
theorem exists_pointer_of_check [CharacterNames] (hU : compile n mode b = .ok U) (h : U.check x r = .ok (o, issues))
    {i : Issue} (hi : i ∈ issues) : ∃ y, i.pointer = b ++ y := by
  obtain ⟨bare, rfl, -⟩ := exists_bare_issues hU h
  obtain ⟨⟨pointer, path, finding, causes⟩, -, rfl⟩ := List.mem_map.1 hi
  exact ⟨pointer, rfl⟩

/-! ## Parts of containers -/

/-- The issues that a container passes on: those that do not carry its own pointer. -/
def passedOn (p : String) (issues : List Issue) : List Issue :=
  issues.filter (·.pointer ≠ p)

theorem passedOn_append (p : String) (is js : List Issue) :
    passedOn p (is ++ js) = passedOn p is ++ passedOn p js :=
  List.filter_append ..

theorem passedOn_eq_nil (h : ∀ i ∈ issues, i.pointer = p) : passedOn p issues = [] :=
  List.filter_eq_nil_iff.2 fun i hi => by simp [h i hi]

/-- A container passes on all issues of a part that is compiled behind its pointer. -/
theorem passedOn_part [CharacterNames] {y : String} (hy : y ≠ "") (hU : compile n mode (p ++ y) = .ok U)
    (h : U.check x r = .ok (o, issues)) : passedOn p issues = issues := by
  refine List.filter_eq_self.2 fun i hi => ?_
  obtain ⟨z, hz⟩ := exists_pointer_of_check hU h hi
  rw [decide_eq_true_eq, hz, String.append_assoc]
  intro heq
  have hlength := congrArg String.length heq
  have hpos : y.length ≠ 0 := by simpa [String.length_eq_zero_iff] using hy
  simp only [String.length_append] at hlength
  omega

/-- What the declared property of a field finds wrong with an object, on its own: nothing where
    the object lacks it. -/
def ToldOfProperty [CharacterNames] (mode : Closedness) (p q : String) (fs : Fields) (f : Scalar × Value)
    (told : List Issue) : Prop :=
  ∃ name, f.1 = .text name ∧
    match fs.named? name with
    | none => told = []
    | some x => ToldOf mode q f.2 x (Pointer.child (p ++ "/properties") name) [.key name] told

/-- An object passes on what its properties find on their own, in the order of the
    declarations. -/
theorem exists_toldOf_properties [CharacterNames] {declared fs out : Fields} {properties : List (String × Validator)}
    {required : List Value}
    (hps : AtNames (fun n q W => compileNode mode n q = .ok W) p declared properties)
    (h : checkProperties p required properties fs [] = .ok (out, issues)) (q : String) :
    ∃ tolds, List.Forall₂ (ToldOfProperty mode p q fs) declared tolds ∧
      passedOn p issues = tolds.flatten := by
  unfold AtNames at hps
  induction hps generalizing out issues with
  | nil =>
    cases h
    exact ⟨[], .nil, rfl⟩
  | @cons f property declared properties hf _ ih =>
    obtain ⟨name, W⟩ := property
    rw [checkProperties] at h
    split at h
    next hnone =>
      obtain ⟨⟨out', is⟩, hrest, heq⟩ := bind_eq_ok_iff.1 h
      cases heq
      obtain ⟨tolds, htolds, hflat⟩ := ih hrest
      refine ⟨[] :: tolds, .cons ⟨name, hf.1, by rw [hnone]⟩ htolds, ?_⟩
      rw [passedOn_append, hflat, passedOn_eq_nil (by split <;> simp [Issue.pointer])]
      rfl
    next x hx =>
      obtain ⟨⟨o, own⟩, hown, ⟨out', is⟩, hrest, heq⟩ := by simpa only [bind_eq_ok_iff] using h
      cases heq
      obtain ⟨tolds, htolds, hflat⟩ := ih hrest
      have hchild : Pointer.child (p ++ "/properties") name =
          p ++ ("/properties" ++ "/" ++ Pointer.escape name) := by
        simp only [Pointer.child, String.append_assoc]
      have hne : "/properties" ++ "/" ++ Pointer.escape name ≠ "" := by
        simp [← String.toList_inj]
      refine ⟨own :: tolds, .cons ⟨name, hf.1, ?_⟩ htolds, ?_⟩
      · rw [hx]
        exact toldOf_of_check hf.2 hown q
      · rw [passedOn_append, hflat, passedOn_part hne (hchild ▸ hf.2) hown]
        rfl

theorem passedOn_object {fs : Fields} {properties : List (String × Validator)} {required : List Value}
    {closedness : Closedness}
    (h : (object p properties required closedness).check (.object fs) [] = .ok (o, issues)) :
    ∃ out is, checkProperties p required properties fs [] = .ok (out, is) ∧
      passedOn p issues = passedOn p is := by
  rw [check] at h
  obtain ⟨⟨out, is⟩, hfields, h⟩ := bind_eq_ok_iff.1 h
  refine ⟨out, is, hfields, ?_⟩
  cases closedness with
  | strict =>
    dsimp only at h
    split at h
    · cases h; rfl
    · cases h
      have hextra : ∀ finding, passedOn p [Issue.mk p [] finding []] = [] := fun finding =>
        passedOn_eq_nil (by simp [Issue.pointer])
      rw [passedOn_append, hextra, List.append_nil]
  | _ => cases h; rfl

/-- An array passes on what its elements find on their own, in order. -/
theorem exists_toldOf_elements [CharacterNames] {items : Validator} {rules : ListRules} {xs : List Value}
    (hitems : compileNode mode n (p ++ "/items") = .ok items)
    (h : (list p items rules).check x [] = .ok (o, issues)) (hx : x.elements? = some xs) (q : String) :
    ∃ tolds, List.Forall₂ (fun e => ToldOf mode q n e.1 (p ++ "/items") [.index e.2]) xs.zipIdx tolds ∧
      passedOn p issues = tolds.flatten := by
  rw [check, hx] at h
  simp only [bind_eq_ok_iff, mapM_eq_ok_iff] at h
  obtain ⟨checked, hchecked, own, -, heq⟩ := h
  cases heq
  have hown : passedOn p (own.map fun f => Issue.mk p [] f []) = [] :=
    passedOn_eq_nil (by simp [Issue.pointer])
  have hrepeated : ∀ places : List Nat,
      passedOn p (places.map fun i => Issue.mk p ([] ++ [.index i]) .repeatedItem []) = [] :=
    fun places => passedOn_eq_nil (by simp [Issue.pointer])
  refine ⟨checked.map (·.2), ?_, ?_⟩
  · refine List.forall₂_map_right_iff.2 (hchecked.imp fun e outcome he => ?_)
    exact toldOf_of_check hitems he q
  · rw [passedOn_append, passedOn_append, hown, hrepeated, List.append_nil, List.append_nil,
      List.flatMap_def]
    clear hown hrepeated hx
    generalize xs.zipIdx = es at hchecked
    induction hchecked with
    | nil => rfl
    | cons he _ ih =>
      rw [List.map_cons, List.flatten_cons, passedOn_append, ih,
        passedOn_part (by decide) hitems he]

/-! ## Schemas and values in other places -/

/-- Compiling a schema at `p` and at `q` ends alike: in trees or in refusals that differ in the
    start of their pointers, or in one fault, which comes from an unfit keyword of a schema in it
    and, where the meta-schema of a dialect other than draft 3 admits the document, from a
    pattern. -/
inductive EndsAlike [CharacterNames] (s : Value) (mode : Closedness) (p q : String) : Prop
  | tree {V : Validator} (hp : compile s mode p = .ok V)
      (hq : compile s mode q = .ok (V.mapPointers (Pointer.rebase p q)))
      (hpointers : ∀ W ∈ V.nodes, ∃ x, W.pointer = p ++ x)
  | refusal {e : SchemaError} (hp : compile s mode p = .error (.refused e))
      (hq : compile s mode q = .error (.refused ⟨e.problem, Pointer.rebase p q e.pointer⟩))
      (hpointer : ∃ x, e.pointer = p ++ x)
  | fault {f : Fault} (hp : compile s mode p = .error (.fault f))
      (hq : compile s mode q = .error (.fault f)) (horigin : FaultOrigin s f)
      (hpattern : ∀ draft a, draft ≠ .three → s.IsJson → Draft.check draft s a = .ok () → s.HasFaultyPattern f)

theorem endsAlike [CharacterNames] (s : Value) (mode : Closedness) (p q : String) : EndsAlike s mode p q := by
  have hq := compile_rebase s mode p q
  rcases hp : compile s mode p with (e | f) | V
  · rw [hp] at hq
    exact .refusal hp hq (exists_append_of_refused hp)
  · rw [hp] at hq
    exact .fault hp hq (faultOrigin_of_compile hp) fun draft a hdraft hs hchecked =>
      hasFaultyPattern_of_compile hs hdraft hchecked hp
  · rw [hp] at hq
    refine .tree hp hq fun W hW => ?_
    obtain ⟨tokens, -, hpointer⟩ := onTrail_compile hp W hW
    exact ⟨_, hpointer⟩

/-- **A schema and a value may stand anywhere.** Compiling a schema at two pointers ends alike;
    a node finds the same at every path; and apart from its own issues a container reports
    exactly what its parts, each compiled and run on its own, report, relocated. -/
theorem compile_relocation [CharacterNames] (s : Value) (mode : Closedness) (p q : String) :
    EndsAlike s mode p q ∧ ∀ V, compile s mode p = .ok V →
      (∀ W ∈ V.nodes, ∀ v r, W.check v r = (W.check v []).map (moved r)) ∧
      (∀ fields : Fields, s = .object fields → fields.ReadAs "object" →
        ∃ declared, fields.declared? = some declared ∧
          ∀ fs verdict, V.run (.object fs) = .ok verdict →
            ∃ tolds, List.Forall₂ (ToldOfProperty mode V.pointer q fs) declared tolds ∧
              passedOn V.pointer verdict.issues = tolds.flatten) ∧
      ∀ fields : Fields, s = .object fields → fields.ReadAs "array" →
        ∃ node, fields.named? "items" = some node ∧
          ∀ v xs verdict, v.elements? = some xs → V.run v = .ok verdict →
            ∃ tolds, List.Forall₂
                (fun e => ToldOf mode q node e.1 (V.pointer ++ "/items") [.index e.2]) xs.zipIdx tolds ∧
              passedOn V.pointer verdict.issues = tolds.flatten := by
  refine ⟨endsAlike s mode p q, fun V hV => ⟨fun W _ v r => ?_, ?_, ?_⟩⟩
  · have happ := check_append W v r []
    rwa [List.append_nil] at happ
  · rintro fields rfl hread
    obtain ⟨b, hV⟩ := hread.exists_compileTyped (show compileNode .. = _ from hV)
    obtain ⟨declared, properties, required, hdeclared, hps, -, rfl⟩ := compileTyped_object_eq_ok_iff.1 hV
    refine ⟨declared, hdeclared, fun fs verdict hrun => ?_⟩
    obtain ⟨o, ho⟩ := exists_check_of_run hrun
    obtain ⟨out, is, hfields, hpassed⟩ := passedOn_object ho
    obtain ⟨tolds, htolds, hflat⟩ := exists_toldOf_properties hps hfields q
    exact ⟨tolds, htolds, hpassed.trans hflat⟩
  · rintro fields rfl hread
    obtain ⟨b, hV⟩ := hread.exists_compileTyped (show compileNode .. = _ from hV)
    obtain ⟨node, items, hnode, -, hitems, rfl⟩ := compileTyped_array_eq_ok_iff.1 hV
    refine ⟨node, hnode, fun v xs verdict hxs hrun => ?_⟩
    obtain ⟨o, ho⟩ := exists_check_of_run hrun
    exact exists_toldOf_elements hitems ho hxs q

end

/-- A record with a list. -/
def orderFields : Fields :=
  [(.text "type", .text "object"),
    (.text "properties", .object [
      (.text "flags", .object [(.text "type", .text "array"),
        (.text "items", .object [(.text "type", .text "boolean")])]),
      (.text "rush", .object [(.text "type", .text "boolean")])]),
    (.text "required", .list [.text "rush"])]

/-- Such a record with an item that is no truth value. -/
def badOrder : Fields := [(.text "flags", .list [.bool true, .text "x"])]

/-- A text with a pattern whose repeat count is beyond the largest one. -/
def hugeRepeat : Fields := [(.text "type", .text "string"), (.text "pattern", .text "a\x7b4294967295\x7d")]

theorem compile_hugeRepeat : compile (.object hugeRepeat) .strip "#/p" = .error (.fault .repeatTooLarge) := by
  have hread : Pattern.ofText (Pattern.anchorEnd "a\x7b4294967295\x7d".toList) =
      .error (.fault .repeatTooLarge) := by
    have hend : (Pattern.ofText (Pattern.anchorEnd "a\x7b4294967295\x7d".toList)).map (fun _ => ()) =
        .error (.fault .repeatTooLarge) := by decide +kernel
    generalize Pattern.ofText _ = result at hend ⊢
    cases result <;> cases hend; rfl
  have hpattern : compilePattern (.text "a\x7b4294967295\x7d") ("#/p" ++ "/pattern") =
      .error (.fault .repeatTooLarge) := by
    simp only [compilePattern, Pattern.anchored_text, hread]
    rfl
  have hreading : hugeRepeat.reading = .typed (.text "string") := rfl
  have hnamed : hugeRepeat.named "pattern" = .text "a\x7b4294967295\x7d" := rfl
  rw [compile, compileNode, compileFields_eq, hreading]
  dsimp only
  rw [compileTyped, compileText, hnamed, hpattern]
  rfl

/-- The item is reported as on its own, the missing name by the record itself; and a fault of a
    pattern is one everywhere. -/
theorem compile_relocation_order :
    (∃ declared tolds, orderFields.declared? = some declared ∧
      List.Forall₂ (ToldOfProperty .strip "#/tools/t/schema" "#" badOrder) declared tolds ∧
      tolds.flatten = [.mk "#/tools/t/schema/properties/flags/items" [.key "flags", .index 1]
        (.wrongKind "boolean" "string") []]) ∧
      compile (.object hugeRepeat) .strip "#" = .error (.fault .repeatTooLarge) := by
  let p := "#/tools/t/schema"
  let items : Validator := .kind (p ++ "/properties/flags/items") "boolean"
  let V : Validator := .object p
    [("flags", .list (p ++ "/properties/flags") items ⟨none, none, false⟩),
      ("rush", .kind (p ++ "/properties/rush") "boolean")] [.text "rush"] .strip
  have hV : compile (.object orderFields) .strip p = .ok V := by cbv
  have hrun : V.run (.object badOrder) = .ok (.rejected [
      .mk (p ++ "/properties/flags/items") [.key "flags", .index 1] (.wrongKind "boolean" "string") [],
      .mk p [.key "rush"] .missing []]) := by cbv
  obtain ⟨-, hparts⟩ := compile_relocation (.object orderFields) .strip p "#"
  obtain ⟨-, hobject, -⟩ := hparts V hV
  obtain ⟨declared, hdeclared, htold⟩ := hobject orderFields rfl (Or.inl rfl)
  obtain ⟨tolds, htolds, hflat⟩ := htold _ _ hrun
  refine ⟨⟨declared, tolds, hdeclared, htolds, hflat.symm.trans ?_⟩, ?_⟩
  · simp [passedOn, Verdict.issues, Issue.pointer, Validator.pointer, V, p]
  · obtain ⟨hp⟩ | ⟨hp⟩ | ⟨hp, hq⟩ := (compile_relocation (.object hugeRepeat) .strip "#/p" "#").1
    · cases hp.symm.trans compile_hugeRepeat
    · cases hp.symm.trans compile_hugeRepeat
    · cases hp.symm.trans compile_hugeRepeat
      exact hq

end SchemaGuard
