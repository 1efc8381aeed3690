/-
  SchemaGuard — intersections do not depend on order and grouping.

  `allOf schemas` compiles to a tree that gathers the trees of the schemas, each at the
  place of a member (`exists_gathers_allOf`); so does a list in which some of the schemas
  stand in an intersection of their own. Main result: `compile_allOf`.
-/
import Mathlib
import SchemaGuard.Proofs.Compile.Relabeling
import SchemaGuard.Proofs.Validator.Gathering

namespace SchemaGuard

open Validator

/-! ## Intersections of schemas -/

/-- The intersection of schemas. -/
def allOf (schemas : List Value) : Value := .object [(.text "allOf", .list schemas)]

/-- The place of a member of the intersection at `p`. -/
def memberPlace (p : String) (i : Nat) : String := p ++ "/allOf" ++ "/" ++ toString i

/-- The places of the members of the intersection at `p`, and of the members of
    intersections that are its members. -/
inductive IsMemberPlace (p : String) : String → Prop where
  | member (i : Nat) : IsMemberPlace p (memberPlace p i)
  | nested (i j : Nat) : IsMemberPlace p (memberPlace (memberPlace p i) j)

/-- The same schemas in another order, or with a run of them in an intersection of its own. -/
inductive Rearranged : (schemas schemas' : List Value) → Prop where
  | permuted {schemas schemas' : List Value} (h : schemas.Perm schemas') : Rearranged schemas schemas'
  | grouped {before run after : List Value} (h : run ≠ []) :
    Rearranged (before ++ run ++ after) (before ++ allOf run :: after)

theorem compile_allOf_eq [CharacterNames] (mode : Closedness) (schemas : List Value) (p : String) :
    compile (allOf schemas) mode p = (do
      return intersectionOf (p ++ "/allOf") (← compileBranches mode schemas (p ++ "/allOf") 0)) := by
  have hreading : Fields.reading [(.text "allOf", .list schemas)] = .all (.list schemas) := rfl
  rw [compile, allOf, compileNode, compileFields_eq, hreading]

/-! ## What an intersection gathers -/

section
variable {mode : Closedness} {IsPlace : String → Prop} {p q : String} {s : Value} {V W : Validator}

/-- Trees compiled from schemas, each at one of certain places. -/
def CompiledAt [CharacterNames] (mode : Closedness) (IsPlace : String → Prop) : List Value → List Validator → Prop :=
  List.Forall₂ fun s V => ∃ a, IsPlace a ∧ compile s mode a = .ok V

/-- As a member of the intersection at `p`, a schema compiles to a tree that gathers the
    trees of some schemas. -/
def StandsFor [CharacterNames] (mode : Closedness) (IsPlace : String → Prop) (p : String) (s : Value)
    (schemas : List Value) : Prop :=
  ∀ i, ∃ V parts, compile s mode (memberPlace p i) = .ok V ∧ V.Gathers parts ∧
    CompiledAt mode IsPlace schemas parts

theorem exists_compileBranches [CharacterNames] {members : List Value} {schemas : List (List Value)}
    (h : List.Forall₂ (StandsFor mode IsPlace p) members schemas) (i : Nat) :
    ∃ Vs parts, compileBranches mode members (p ++ "/allOf") i = .ok Vs ∧
      Vs.length = members.length ∧ List.Forall₂ Gathers Vs parts ∧
      CompiledAt mode IsPlace schemas.flatten parts.flatten := by
  induction h generalizing i with
  | nil => exact ⟨[], [], by rw [compileBranches], rfl, .nil, .nil⟩
  | cons hs _ ih =>
    obtain ⟨V, own, hV, hgathers, hown⟩ := hs i
    obtain ⟨Vs, parts, hVs, hlength, hall, hparts⟩ := ih (i + 1)
    rw [compile, memberPlace] at hV
    refine ⟨V :: Vs, own :: parts, ?_, by simp [hlength], .cons hgathers hall, List.rel_append hown hparts⟩
    rw [compileBranches, hV, hVs]
    rfl

/-- An intersection gathers what its members stand for. -/
theorem exists_gathers_allOf [CharacterNames] {members : List Value} {schemas : List (List Value)}
    (h : List.Forall₂ (StandsFor mode IsPlace p) members schemas) (hne : members ≠ []) :
    ∃ V parts, compile (allOf members) mode p = .ok V ∧ V.Gathers parts ∧
      CompiledAt mode IsPlace schemas.flatten parts := by
  obtain ⟨Vs, parts, hVs, hlength, hall, hparts⟩ := exists_compileBranches h 0
  have hVne : Vs ≠ [] := by
    rintro rfl
    exact hne (List.length_eq_zero_iff.1 hlength.symm)
  exact ⟨_, parts.flatten, by rw [compile_allOf_eq, hVs]; rfl, gathers_intersectionOf hall hVne, hparts⟩

/-- A schema stands for itself. -/
theorem standsFor_self [CharacterNames] (hs : s.DistinctKeys) (hc : ∃ V, compile s mode q = .ok V)
    (hplace : ∀ i, IsPlace (memberPlace p i)) : StandsFor mode IsPlace p s [s] := fun i => by
  obtain ⟨V, hV⟩ := (exists_compile_iff q (memberPlace p i)).1 hc
  exact ⟨V, [V], hV, gathers_self (distinctNames_of_distinctKeys hs hV), .cons ⟨_, hplace i, hV⟩ .nil⟩

theorem standsFor_each [CharacterNames] {schemas : List Value}
    (hs : ∀ s ∈ schemas, s.DistinctKeys ∧ ∃ q V, compile s mode q = .ok V)
    (hplace : ∀ i, IsPlace (memberPlace p i)) :
    List.Forall₂ (StandsFor mode IsPlace p) schemas (schemas.map fun s => [s]) := by
  rw [List.forall₂_map_right_iff]
  refine List.forall₂_same.2 fun s hmem => ?_
  obtain ⟨hd, q, hc⟩ := hs s hmem
  exact standsFor_self hd hc hplace

/-- A nested intersection stands for its members. -/
theorem standsFor_allOf [CharacterNames] {run : List Value} (hne : run ≠ [])
    (hs : ∀ s ∈ run, s.DistinctKeys ∧ ∃ q V, compile s mode q = .ok V) :
    StandsFor mode (IsMemberPlace p) p (allOf run) run := fun i => by
  obtain ⟨V, parts, hV, hgathers, hparts⟩ :=
    exists_gathers_allOf (standsFor_each (p := memberPlace p i) hs (IsMemberPlace.nested i)) hne
  rw [← List.flatMap_def, List.flatMap_singleton'] at hparts
  exact ⟨V, parts, hV, hgathers, hparts⟩

/-- A rearranged list stands for the schemas that it was made of, in some order. -/
theorem Rearranged.exists_standsFor [CharacterNames] {schemas schemas' : List Value} (h : Rearranged schemas schemas')
    (hs : ∀ s ∈ schemas, s.DistinctKeys ∧ ∃ q V, compile s mode q = .ok V) :
    ∃ parts, List.Forall₂ (StandsFor mode (IsMemberPlace p) p) schemas' parts ∧
      schemas.Perm parts.flatten := by
  cases h with
  | permuted hperm =>
    refine ⟨_, standsFor_each (fun s hmem => hs s (hperm.mem_iff.2 hmem)) .member, ?_⟩
    rwa [← List.flatMap_def, List.flatMap_singleton']
  | @grouped before run after hne =>
    have hbefore : ∀ s ∈ before, s.DistinctKeys ∧ ∃ q V, compile s mode q = .ok V :=
      fun s hmem => hs s (by simp [hmem])
    have hrun : ∀ s ∈ run, s.DistinctKeys ∧ ∃ q V, compile s mode q = .ok V :=
      fun s hmem => hs s (by simp [hmem])
    have hafter : ∀ s ∈ after, s.DistinctKeys ∧ ∃ q V, compile s mode q = .ok V :=
      fun s hmem => hs s (by simp [hmem])
    refine ⟨_, List.rel_append (standsFor_each hbefore .member)
      (.cons (standsFor_allOf hne hrun) (standsFor_each hafter .member)), ?_⟩
    rw [List.flatten_append, List.flatten_cons, ← List.flatMap_def, ← List.flatMap_def,
      List.flatMap_singleton', List.flatMap_singleton', List.append_assoc]

theorem Rearranged.ne_nil {schemas schemas' : List Value} (h : Rearranged schemas schemas')
    (hne : schemas ≠ []) : schemas' ≠ [] := by
  cases h with
  | permuted hperm => exact fun heq => hne (by rwa [heq, List.perm_nil] at hperm)
  | grouped => simp

/-! ## One schema at several places -/

theorem sameTree_of_compile [CharacterNames] {a b : String} (ha : IsPlace a) (hV : compile s mode a = .ok V)
    (hb : IsPlace b) (hW : compile s mode b = .ok W) : SameTree IsPlace V W := by
  obtain ⟨U, hU, rfl⟩ := compile_eq_ok_iff.1 hV
  obtain ⟨U', hU', rfl⟩ := compile_eq_ok_iff.1 hW
  obtain rfl : U = U' := Except.ok.inj (hU.symm.trans hU')
  exact ⟨U, a, b, ha, hb, rfl, rfl⟩

/-- Trees of the same schemas, in any order, are the same trees at several places. -/
theorem CompiledAt.exists_apart [CharacterNames] {schemas schemas' : List Value} {Vs Ws : List Validator}
    (h : CompiledAt mode IsPlace schemas Vs) (h' : CompiledAt mode IsPlace schemas' Ws)
    (hperm : schemas.Perm schemas') :
    ∃ apart, List.Forall₂ (SameTree IsPlace) Vs apart ∧ apart.Perm Ws := by
  obtain ⟨apart, hapart, hapartperm⟩ := List.perm_comp_forall₂ hperm h'
  refine ⟨apart, ?_, hapartperm⟩
  clear hapartperm hperm h'
  induction h generalizing apart with
  | nil => cases hapart; exact .nil
  | cons hV _ ih =>
    obtain _ | ⟨hW, hrest⟩ := hapart
    obtain ⟨a, ha, hV⟩ := hV
    obtain ⟨b, hb, hW⟩ := hW
    exact .cons (sameTree_of_compile ha hV hb hW) (ih _ hrest)

/-- By itself, compiled at `q`, a schema accepts a value and cleans it to `o`. -/
def AcceptsAlone [CharacterNames] (mode : Closedness) (q : String) (s v o : Value) : Prop :=
  ∃ V, compile s mode q = .ok V ∧ V.run v = .ok (.accepted o)

theorem acceptsAlone_iff [CharacterNames] {a : String} (hV : compile s mode a = .ok V) {v o : Value} :
    AcceptsAlone mode q s v o ↔ V.Accepts v o := by
  obtain ⟨U, hU, rfl⟩ := compile_eq_ok_iff.1 hV
  simp only [AcceptsAlone, compile_eq_ok_iff, hU, run_eq_accepted_iff, accepts_mapPointers_iff]
  constructor
  · rintro ⟨_, ⟨_, ⟨⟩, rfl⟩, ho⟩
    exact accepts_mapPointers_iff.1 ho
  · intro ho
    exact ⟨_, ⟨U, rfl, rfl⟩, accepts_mapPointers_iff.2 ho⟩

end

/-! ## Order and grouping -/

/-- **Intersections do not depend on order and grouping.** The merge of two parts of a
    value is their join. So an intersection accepts what each of its schemas accepts, and
    cleans it to the join of what they clean it to; with the schemas in another order, or
    some of them in an intersection of their own, it gives the same answers. -/
theorem compile_allOf [CharacterNames] :
    (∀ v l r : Value, l.IsJson → r.IsJson → l ≤ v → r ≤ v → Value.IsJoin v {l, r} (l.merge r)) ∧
    ∀ (mode : Closedness) (p q : String) (schemas : List Value), schemas ≠ [] →
      (∀ s ∈ schemas, s.DistinctKeys ∧ ∃ q V, compile s mode q = .ok V) →
      ∃ V, compile (allOf schemas) mode p = .ok V ∧
        (∀ v, (∃ o, V.run v = .ok (.accepted o)) ↔ ∀ s ∈ schemas, ∃ o, AcceptsAlone mode q s v o) ∧
        (∀ v o, v.IsJson → V.run v = .ok (.accepted o) →
          Value.IsJoin v {x | ∃ s ∈ schemas, AcceptsAlone mode q s v x} o) ∧
        ∀ schemas', Rearranged schemas schemas' → ∃ V', compile (allOf schemas') mode p = .ok V' ∧
          ∀ v, v.IsJson → Agrees (IsMemberPlace p) (V.run v) (V'.run v) := by
  refine ⟨fun v l r hl hr hlv hrv => Value.isJoin_merge hl hr hlv hrv, ?_⟩
  intro mode p q schemas hne hs
  obtain ⟨V, parts, hV, hgathers, hparts⟩ := exists_gathers_allOf (standsFor_each hs IsMemberPlace.member) hne
  rw [← List.flatMap_def, List.flatMap_singleton'] at hparts
  refine ⟨V, hV, fun v => ?_, fun v o hv ho => ?_, fun schemas' hre => ?_⟩
  · simp only [run_eq_accepted_iff]
    rw [hgathers.exists_accepts_iff]
    refine (forall_mem_congr hparts fun s W hW => ?_).symm
    obtain ⟨a, -, hW⟩ := hW
    exact exists_congr fun o => acceptsAlone_iff hW
  · have hcopies : {x | ∃ s ∈ schemas, AcceptsAlone mode q s v x} =
        {x | ∃ W ∈ parts, W.Accepts v x} := by
      ext x
      refine exists_mem_congr hparts fun s W hW => ?_
      obtain ⟨a, -, hW⟩ := hW
      exact acceptsAlone_iff hW
    rw [hcopies]
    exact hgathers.joins v o hv (run_eq_accepted_iff.1 ho)
  · obtain ⟨schemass, hstands, hperm⟩ := hre.exists_standsFor hs
    obtain ⟨V', parts', hV', hgathers', hparts'⟩ := exists_gathers_allOf hstands (hre.ne_nil hne)
    obtain ⟨apart, hapart, hapartperm⟩ := hparts.exists_apart hparts' hperm
    exact ⟨V', hV', fun v hv => hgathers.agrees hgathers' hapart hapartperm hv⟩

/-- An object with a list, of whose elements it keeps one property. -/
def rowsWith (name type : String) : Value :=
  .object [(.text "type", .text "object"), (.text "properties", .object [(.text "rows", .object [
    (.text "type", .text "array"), (.text "items", .object [(.text "type", .text "object"),
      (.text "properties", .object [(.text name, .object [(.text "type", .text type)])])])])])]

/-- The validator of `rowsWith`. -/
def rowsWithTree (p name type : String) : Validator :=
  .object p [("rows", .list (p ++ "/properties/rows")
    (.object (p ++ "/properties/rows/items")
      [(name, .kind (p ++ "/properties/rows/items/properties/" ++ name) type)] [] .strip)
    ⟨none, none, false⟩)] [] .strip

/-- An object of which nothing is kept. -/
def bareObject : Value := .object [(.text "type", .text "object")]

/-- One row, with a property more than the two that are kept. -/
def wideRow : Value := .object [(.text "rows", .list [
  .object [(.text "b", .bool true), (.text "c", .null), (.text "a", .null)]])]

/-- One row, with two properties of the wrong type. -/
def wrongRow : Value := .object [(.text "rows", .list [
  .object [(.text "b", .null), (.text "a", .bool true)]])]

theorem compile_allOf_rows : ∃ V V' : Validator,
    compile (allOf [rowsWith "a" "null", rowsWith "b" "boolean", bareObject]) .strip "#" = .ok V ∧
    compile (allOf [rowsWith "a" "null", allOf [rowsWith "b" "boolean", bareObject]]) .strip "#" =
      .ok V' ∧
    Value.IsJoin wideRow {x | ∃ s ∈ [rowsWith "a" "null", rowsWith "b" "boolean", bareObject],
        AcceptsAlone .strip "" s wideRow x}
      (.object [(.text "rows", .list [.object [(.text "a", .null), (.text "b", .bool true)]])]) ∧
    (∃ i j, V.run wrongRow = .ok (.rejected [i, j])) ∧
    Agrees (IsMemberPlace "#") (V.run wrongRow) (V'.run wrongRow) := by
  have hA : compile (rowsWith "a" "null") .strip "" = .ok (rowsWithTree "" "a" "null") := by cbv
  have hB : compile (rowsWith "b" "boolean") .strip "" = .ok (rowsWithTree "" "b" "boolean") := by cbv
  have hC : compile bareObject .strip "" = .ok (.object "" [] [] .strip) := by cbv
  have hs : ∀ s ∈ [rowsWith "a" "null", rowsWith "b" "boolean", bareObject],
      s.DistinctKeys ∧ ∃ q V, compile s .strip q = .ok V := by
    simp only [List.forall_mem_cons, List.not_mem_nil, false_imp_iff, implies_true, and_true]
    exact ⟨⟨by decide, _, _, hA⟩, ⟨by decide, _, _, hB⟩, by decide, _, _, hC⟩
  obtain ⟨-, hall⟩ := compile_allOf
  obtain ⟨V, hV, -, hjoin, hre⟩ := hall .strip "#" "" _ (by decide) hs
  obtain ⟨V', hV', hagrees⟩ := hre _ (@Rearranged.grouped [rowsWith "a" "null"]
    [rowsWith "b" "boolean", bareObject] [] (by decide))
  have htree : compile (allOf [rowsWith "a" "null", rowsWith "b" "boolean", bareObject]) .strip "#" =
      .ok (.both "#/allOf" (.both "#/allOf" (rowsWithTree "#/allOf/0" "a" "null")
        (rowsWithTree "#/allOf/1" "b" "boolean")) (.object "#/allOf/2" [] [] .strip)) := by cbv
  obtain rfl := Except.ok.inj (hV.symm.trans htree)
  exact ⟨_, V', hV, hV', hjoin _ _ (by decide) (by cbv), ⟨_, _, by cbv⟩, hagrees _ (by decide)⟩

end SchemaGuard
