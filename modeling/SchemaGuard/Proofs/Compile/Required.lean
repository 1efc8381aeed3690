/-
  SchemaGuard — required properties.

  `Reaches s v node x path` says that checking `v` against the schema `s` comes to
  the value `x` at `path` with the schema node `node`, through properties, items
  and `allOf` only: every way that a whole check always takes.

  * `exists_check_of_reaches`: the node that is reached is compiled to a part of the
    tree, and what that part finds wrong with `x` is reported by the whole;
  * `compile_required`: a required name that is missing is reported exactly if it
    is also declared.
-/
import Mathlib
import SchemaGuard.Proofs.Compile.Shape

namespace SchemaGuard

open Validator

/-- A node is read under one type, given by its name or as a list with that name. -/
def Fields.ReadAs (fields : Fields) (name : String) : Prop :=
  fields.reading = .typed (.text name) ∨ fields.reading = .typed (.list [.text name])

theorem Fields.ReadAs.exists_compileTyped [CharacterNames] {fields : Fields} {name : String}
    (h : fields.ReadAs name) {mode : Closedness} {p : String} {V : Validator}
    (hV : compileNode mode (.object fields) p = .ok V) :
    ∃ q, compileTyped mode fields (.text name) q = .ok V := by
  rw [compileNode, compileFields_eq] at hV
  rcases h with hr | hr
  · rw [hr] at hV; exact ⟨p, hV⟩
  · rw [hr] at hV
    obtain ⟨Vs, hVs, hV⟩ := compileTyped_list_eq_ok_iff.1 hV
    obtain ⟨W, _, hW, ⟨⟩, rfl⟩ := List.forall₂_cons_left_iff.1 hVs
    cases hV
    exact ⟨_, hW⟩

/-- The places that every check of `v` against the schema `s` comes to. -/
inductive Reaches (s v : Value) : Value → Value → Path → Prop
  | root : Reaches s v s v []
  | property {fields fs declared : Fields} {path : Path} {name : String} {node x : Value}
      (h : Reaches s v (.object fields) (.object fs) path)
      (hr : fields.ReadAs "object") (hd : fields.declared? = some declared)
      (hn : (.text name, node) ∈ declared) (hx : fs.named? name = some x) :
      Reaches s v node x (path ++ [.key name])
  | element {fields : Fields} {path : Path} {node x y : Value} {xs : List Value} {i : Nat}
      (h : Reaches s v (.object fields) y path) (hr : fields.ReadAs "array")
      (hn : fields.named? "items" = some node) (hy : y.elements? = some xs) (hx : xs[i]? = some x) :
      Reaches s v node x (path ++ [.index i])
  | allOf {fields : Fields} {path : Path} {node x : Value} {nodes : List Value}
      (h : Reaches s v (.object fields) x path) (hr : fields.reading = .all (.list nodes))
      (hn : node ∈ nodes) : Reaches s v node x path

/-! ## Parts of checks -/

namespace Validator

variable {path : Path} {o : Value} {issues : List Issue}

theorem exists_check_of_mem_properties {p : String} {required : List Value} {fs : Fields}
    {properties : List (String × Validator)} {out : Fields}
    (h : checkProperties p required properties fs path = .ok (out, issues)) {name : String}
    {V : Validator} (hq : (name, V) ∈ properties) {x : Value} (hx : fs.named? name = some x) :
    ∃ o is, V.check x (path ++ [.key name]) = .ok (o, is) ∧ is ⊆ issues := by
  induction properties generalizing out issues with
  | nil => cases hq
  | cons q qs ih =>
    obtain ⟨name', W⟩ := q
    rw [checkProperties] at h
    rcases List.mem_cons.1 hq with heq | hq
    · cases heq
      rw [hx] at h
      obtain ⟨⟨o, own⟩, hV, ⟨out', is⟩, -, heq⟩ := by simpa only [bind_eq_ok_iff] using h
      cases heq
      exact ⟨o, own, hV, List.subset_append_left _ _⟩
    · split at h
      · obtain ⟨⟨out', is⟩, hrest, heq⟩ := bind_eq_ok_iff.1 h
        cases heq
        obtain ⟨o, is', hV, hsub⟩ := ih hrest hq
        exact ⟨o, is', hV, List.Subset.trans hsub (List.subset_append_right _ _)⟩
      · obtain ⟨⟨o, own⟩, -, ⟨out', is⟩, hrest, heq⟩ := by simpa only [bind_eq_ok_iff] using h
        cases heq
        obtain ⟨o, is', hV, hsub⟩ := ih hrest hq
        exact ⟨o, is', hV, List.Subset.trans hsub (List.subset_append_right _ _)⟩

theorem check_object_eq_ok {p : String} {properties : List (String × Validator)}
    {required : List Value} {closedness : Closedness} {fs : Fields}
    (h : (object p properties required closedness).check (.object fs) path = .ok (o, issues)) :
    ∃ out is extra, checkProperties p required properties fs path = .ok (out, is) ∧
      issues = is ++ extra ∧ ∀ i ∈ extra, i.path = path := by
  rw [check] at h
  obtain ⟨⟨out, is⟩, hp, h⟩ := bind_eq_ok_iff.1 h
  cases closedness with
  | strict =>
    dsimp only at h
    split at h
    · cases h; exact ⟨out, issues, [], hp, by simp, by simp⟩
    · cases h; exact ⟨out, is, _, hp, rfl, by simp [Issue.path]⟩
  | _ => cases h; exact ⟨out, issues, [], hp, by simp, by simp⟩

theorem exists_check_of_getElem? {p : String} {items : Validator} {rules : ListRules} {y : Value}
    (h : (list p items rules).check y path = .ok (o, issues)) {xs : List Value}
    (hy : y.elements? = some xs) {i : Nat} {x : Value} (hx : xs[i]? = some x) :
    ∃ o is, items.check x (path ++ [.index i]) = .ok (o, is) ∧ is ⊆ issues := by
  rw [check, hy] at h
  simp only [bind_eq_ok_iff, mapM_eq_ok_iff] at h
  obtain ⟨checked, hc, own, -, heq⟩ := h
  cases heq
  obtain ⟨⟨o, is⟩, hmem, ho⟩ := forall₂_left hc (List.mk_mem_zipIdx_iff_getElem?.2 hx)
  refine ⟨o, is, ho, fun j hj => ?_⟩
  simp only [List.mem_append]
  exact Or.inl (Or.inl (List.mem_flatMap.2 ⟨_, hmem, hj⟩))

theorem exists_check_of_mem_intersection {p : String} {Vs : List Validator} {x : Value}
    (h : (intersectionOf p Vs).check x path = .ok (o, issues)) {V : Validator} (hV : V ∈ Vs) :
    ∃ o is, V.check x path = .ok (o, is) ∧ is ⊆ issues := by
  have hfold : ∀ (Ws : List Validator) (W : Validator) (o : Value) (issues : List Issue),
      (Ws.foldl (.both p) W).check x path = .ok (o, issues) → ∀ U ∈ W :: Ws,
      ∃ o is, U.check x path = .ok (o, is) ∧ is ⊆ issues := by
    intro Ws
    induction Ws with
    | nil =>
      intro W o issues h U hU
      obtain rfl := List.mem_singleton.1 hU
      exact ⟨o, issues, h, List.Subset.refl _⟩
    | cons W' Ws ih =>
      intro W o issues h U hU
      have hWs := ih (.both p W W') o issues h
      obtain ⟨o', is, hb, hsub⟩ := hWs (.both p W W') List.mem_cons_self
      obtain ⟨l, li, r, ri, hl, hr, rfl, -⟩ := check_both_eq_ok hb
      rcases List.mem_cons.1 hU with rfl | hU
      · exact ⟨l, li, hl, List.Subset.trans (List.subset_append_left li ri) hsub⟩
      · rcases List.mem_cons.1 hU with rfl | hU
        · exact ⟨r, ri, hr, List.Subset.trans (List.subset_append_right li ri) hsub⟩
        · exact hWs U (by simp [hU])
  cases Vs with
  | nil => cases hV
  | cons W Ws => exact hfold Ws W o issues h V hV

end Validator

/-- What is found at a place that is reached is the finding of the node there, and
    is reported by the whole check. -/
theorem exists_check_of_reaches [CharacterNames] {s v : Value} {mode : Closedness} {p : String}
    {V : Validator}
    (hV : compile s mode p = .ok V) {o : Value} {issues : List Issue}
    (h : V.check v [] = .ok (o, issues)) {node x : Value} {path : Path}
    (hreach : Reaches s v node x path) :
    ∃ q W o is, compileNode mode node q = .ok W ∧ W.check x path = .ok (o, is) ∧ is ⊆ issues := by
  induction hreach with
  | root => exact ⟨p, V, o, issues, hV, h, List.Subset.refl _⟩
  | property _ hr hd hn hx ih =>
    obtain ⟨q, W, o, is, hW, hcheck, hsub⟩ := ih
    obtain ⟨q', hW⟩ := hr.exists_compileTyped hW
    obtain ⟨declared, properties, required, hd', hps, -, rfl⟩ := compileTyped_object_eq_ok_iff.1 hW
    obtain rfl := Option.some.inj (hd.symm.trans hd')
    obtain ⟨⟨name, U⟩, hmem, heq, hU⟩ := forall₂_left hps hn
    cases heq
    obtain ⟨out, is', extra, hp, rfl, -⟩ := check_object_eq_ok hcheck
    obtain ⟨o', is'', hU', hsub'⟩ := exists_check_of_mem_properties hp hmem hx
    exact ⟨_, U, o', is'', hU, hU', fun i hi => hsub (List.mem_append_left _ (hsub' hi))⟩
  | element _ hr hn hy hx ih =>
    obtain ⟨q, W, o, is, hW, hcheck, hsub⟩ := ih
    obtain ⟨q', hW⟩ := hr.exists_compileTyped hW
    obtain ⟨node, items, hn', -, hi, rfl⟩ := compileTyped_array_eq_ok_iff.1 hW
    obtain rfl := Option.some.inj (hn.symm.trans hn')
    obtain ⟨o', is', hc, hsub'⟩ := exists_check_of_getElem? hcheck hy hx
    exact ⟨_, items, o', is', hi, hc, List.Subset.trans hsub' hsub⟩
  | allOf _ hr hn ih =>
    obtain ⟨q, W, o, is, hW, hcheck, hsub⟩ := ih
    rw [compileNode, compileFields_eq, hr] at hW
    simp only [bind_eq_ok_iff, compileBranches_eq_ok_iff, pure, Except.pure, Except.ok.injEq] at hW
    obtain ⟨Vs, hVs, rfl⟩ := hW
    obtain ⟨i, hi⟩ := List.mem_iff_getElem?.1 hn
    obtain ⟨U, hmem, hU⟩ := forall₂_left hVs (List.mk_mem_zipIdx_iff_getElem?.2 hi)
    obtain ⟨o', is', hc, hsub'⟩ := exists_check_of_mem_intersection hcheck hmem
    exact ⟨_, U, o', is', hU, hc, List.Subset.trans hsub' hsub⟩

/-! ## Required names -/

/-- Whether a node lists a name as required. -/
def Fields.Requires (fields : Fields) (name : String) : Prop :=
  ∃ names, fields.named? "required" = some (.list names) ∧ .text name ∈ names

/-- Whether a node declares a property. -/
def Fields.Declares (fields : Fields) (name : String) : Prop :=
  ∃ declared, fields.declared? = some declared ∧ .text name ∈ declared.keys

theorem Fields.declares_iff {fields declared : Fields} (hd : fields.declared? = some declared)
    {properties : List (String × Validator)}
    (hnames : properties.map (fun q => Scalar.text q.1) = declared.keys) {name : String} :
    fields.Declares name ↔ name ∈ properties.map (·.1) := by
  simp [Fields.Declares, hd, ← hnames]

namespace Validator

theorem path_prefix_of_check {V : Validator} {v o : Value} {path : Path} {issues : List Issue}
    (h : V.check v path = .ok (o, issues)) {i : Issue} (hi : i ∈ issues) : path <+: i.path := by
  have happ := check_append V v path []
  rw [List.append_nil, h] at happ
  rcases hv : V.check v [] with f | ⟨o', is⟩
  · rw [hv] at happ; cases happ
  · rw [hv] at happ
    cases happ
    obtain ⟨⟨q, r, f, causes⟩, -, rfl⟩ := List.mem_map.1 hi
    exact List.prefix_append _ _

/-- A missing name is reported at its own place if it is declared and required. -/
theorem exists_missing_iff {p : String} {required : List Value} {fs : Fields} {path : Path}
    {properties : List (String × Validator)} {out : Fields} {issues : List Issue}
    (h : checkProperties p required properties fs path = .ok (out, issues)) {name : String}
    (hx : fs.named? name = none) :
    (∃ i ∈ issues, i.finding = .missing ∧ i.path = path ++ [.key name]) ↔
      name ∈ properties.map (·.1) ∧ .text name ∈ required := by
  induction properties generalizing out issues with
  | nil => cases h; simp
  | cons q qs ih =>
    obtain ⟨name', V⟩ := q
    rw [checkProperties] at h
    split at h
    · obtain ⟨⟨out', is⟩, hrest, heq⟩ := bind_eq_ok_iff.1 h
      cases heq
      have hown : (∃ i ∈ (if required.contains (.text name') then
            [Issue.mk p (path ++ [.key name']) .missing []] else []),
          i.finding = .missing ∧ i.path = path ++ [.key name]) ↔
          name = name' ∧ .text name ∈ required := by
        split
        next hr =>
          rw [List.contains_iff_mem] at hr
          simp only [List.mem_singleton, exists_eq_left, Issue.finding, Issue.path, true_and,
            List.append_cancel_left_eq, List.cons.injEq, Step.key.injEq, and_true]
          exact ⟨fun h => ⟨h.symm, h ▸ hr⟩, fun h => h.1.symm⟩
        next hr =>
          rw [List.contains_iff_mem] at hr
          simp only [List.not_mem_nil, false_and, exists_false, false_iff, not_and]
          rintro rfl; exact hr
      simp only [List.mem_append, or_and_right, exists_or, ih hrest, hown, List.map_cons,
        List.mem_cons]
    next x hx' =>
      obtain ⟨⟨y, own⟩, hy, ⟨out', is⟩, hrest, heq⟩ := by simpa only [bind_eq_ok_iff] using h
      cases heq
      have hne : name ≠ name' := by rintro rfl; rw [hx] at hx'; cases hx'
      have hown : ∀ i ∈ own, i.path ≠ path ++ [.key name] := by
        intro i hi heq
        have hpre := path_prefix_of_check hy hi
        rw [heq] at hpre
        have heq := hpre.eq_of_length (by simp)
        simp [hne.symm] at heq
      simp only [List.mem_append, or_and_right, exists_or, ih hrest, List.map_cons, List.mem_cons, hne,
        false_or, or_iff_right_iff_imp]
      rintro ⟨i, hi, -, hpath⟩
      exact absurd hpath (hown i hi)

end Validator

/-- **Required names are enforced as far as they are declared**: at an object node
    that a check comes to, an accepted value has the declared ones, and the node
    reports a missing one exactly if it is declared. -/
theorem compile_required [CharacterNames] {s v : Value} {mode : Closedness} {p : String}
    {V : Validator}
    (hV : compile s mode p = .ok V) {verdict : Verdict} (h : V.run v = .ok verdict)
    {fields : Fields} {x : Value} {path : Path} (hreach : Reaches s v (.object fields) x path)
    (hr : fields.ReadAs "object") {name : String} (hn : fields.Requires name) :
    ((∃ o, verdict = .accepted o) →
        ∃ fs : Fields, x = .object fs ∧ (fields.Declares name → fs.has name)) ∧
      ∀ fs : Fields, x = .object fs → ¬ fs.has name →
        ∃ q W o is, compileNode mode (.object fields) q = .ok W ∧ W.check x path = .ok (o, is) ∧
          is ⊆ verdict.issues ∧
          ((∃ i ∈ is, i.finding = .missing ∧ i.message = "Required" ∧ i.path = path ++ [.key name]) ↔
            fields.Declares name) := by
  obtain ⟨o, ho⟩ := exists_check_of_run h
  obtain ⟨q, W, o', is, hW, hcheck, hsub⟩ := exists_check_of_reaches hV ho hreach
  obtain ⟨names, hnames, hmem⟩ := hn
  have hW' := hW
  obtain ⟨q', hW⟩ := hr.exists_compileTyped hW
  obtain ⟨declared, properties, required, hd, hps, hreq, rfl⟩ := compileTyped_object_eq_ok_iff.1 hW
  have hrequired : .text name ∈ required := by
    rw [Fields.named, hnames] at hreq
    exact (mem_nameSet_iff hreq).2 hmem
  have hdeclares : fields.Declares name ↔ _ := Fields.declares_iff hd hps.names_eq
  refine ⟨?_, ?_⟩
  · rintro ⟨o'', rfl⟩
    obtain rfl : is = [] := List.eq_nil_of_subset_nil hsub
    obtain ⟨fs, out, rfl, hprops, -⟩ := accepts_object_iff.1 ((check_eq_ok_nil_iff path).1 hcheck)
    refine ⟨fs, rfl, fun hdec => ?_⟩
    obtain ⟨q', hq', rfl⟩ := List.mem_map.1 (hdeclares.1 hdec)
    by_contra hmiss
    exact (hprops.of_mem hq').1 (by simpa [Fields.has] using hmiss) hrequired
  · rintro fs rfl hmiss
    obtain ⟨out, is', extra, hp, rfl, hextra⟩ := check_object_eq_ok hcheck
    refine ⟨q, _, o', _, hW', hcheck, hsub, ?_⟩
    have hnone : fs.named? name = none := by simpa [Fields.has] using hmiss
    rw [hdeclares, ← and_iff_left (a := name ∈ properties.map (·.1)) hrequired,
      ← exists_missing_iff hp hnone]
    constructor
    · rintro ⟨i, hi, hf, -, hpath⟩
      rcases List.mem_append.1 hi with hi | hi
      · exact ⟨i, hi, hf, hpath⟩
      · rw [hextra i hi] at hpath
        simp at hpath
    · rintro ⟨i, hi, hf, hpath⟩
      exact ⟨i, List.mem_append_left _ hi, hf, by rw [Issue.message, hf]; rfl, hpath⟩

/-- A record that requires one declared name and one that it does not declare. -/
def halfDeclared : Fields :=
  [(.text "type", .text "object"), (.text "properties", .object [(.text "a", .bool true)]),
    (.text "required", .list [.text "a", .text "b"])]

/-- Lists of such records. -/
def halfDeclaredList : Value :=
  .object [(.text "type", .text "array"),
    (.text "items", .object [(.text "allOf", .list [.object halfDeclared])])]

theorem compile_required_halfDeclared :
    ∃ q W o is, compileNode .strip (.object halfDeclared) q = .ok W ∧
      W.check (.object []) [.index 0] = .ok (o, is) ∧
      (∃ i ∈ is, i.finding = .missing ∧ i.message = "Required" ∧ i.path = [.index 0, .key "a"]) := by
  let node := "#/items/allOf/0"
  have hV : compile halfDeclaredList .strip "#" = .ok (.list "#" (.object node
      [("a", .any (node ++ "/properties/a"))] [.text "a", .text "b"] .strip)
      ⟨none, none, false⟩) := by cbv
  have hrun : (Validator.list "#" (.object node
      [("a", .any (node ++ "/properties/a"))] [.text "a", .text "b"] .strip)
      ⟨none, none, false⟩).run (.list [.object []]) =
      .ok (.rejected [.mk node [.index 0, .key "a"] .missing []]) := by cbv
  have hreach : Reaches halfDeclaredList (.list [.object []]) (.object halfDeclared) (.object [])
      [.index 0] :=
    .allOf (.element (i := 0) .root (Or.inl rfl) rfl rfl rfl) rfl List.mem_cons_self
  obtain ⟨-, hreported⟩ := compile_required hV hrun hreach (Or.inl rfl) ⟨_, rfl, List.mem_cons_self⟩
  obtain ⟨q, W, o, is, hW, hcheck, -, hiff⟩ := hreported [] rfl (by decide)
  exact ⟨q, W, o, is, hW, hcheck, hiff.2 ⟨_, rfl, List.mem_cons_self⟩⟩

/-- A missing name that is not declared goes unnoticed. -/
example : ((compile (.object halfDeclared) .strip "#").toOption.map
    fun V => V.run (.object [(.text "a", .null)])) =
    some (.ok (.accepted (.object [(.text "a", .null)]))) := by cbv

end SchemaGuard
