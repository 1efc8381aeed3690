/-
  SchemaGuard — what a caller receives.

  Main results, for validators compiled from JSON schemas:

  * `compile_accepts_between`: a value between an accepted value and its cleaned
    copy is accepted again, unless a bound inside a union is not a number;
  * `compile_uniqueItems`: uniqueness is a property of the elements handed in,
    and of the returned ones as far as cleaning left them as they were.
-/
import Mathlib
import SchemaGuard.Proofs.Compile.Shape
import SchemaGuard.Proofs.Validator.Cleaning

namespace SchemaGuard

open Validator Value

/-! ## Running a cleaned value again -/

/-- **Cleaned values stay valid.** -/
theorem compile_accepts_between [CharacterNames] {s : Value} {mode : Closedness} {p : String}
    {V : Validator}
    (hs : s.IsJson) (hV : compile s mode p = .ok V) (hu : V.RepeatFree)
    (hn : V.NumericSizesInUnions) {v o : Value} (hv : v.IsJson) (hr : v.InRange)
    (h : V.run v = .ok (.accepted o)) :
    o.IsJson ∧ o ≤ v ∧ ∀ w : Value, w.IsJson → o ≤ w → w ≤ v →
      ∃ o', V.run w = .ok (.accepted o') ∧ (V.UnionFree → o'.Alike o) := by
  have hd := distinctNames_compile hs hV
  rw [run_eq_accepted_iff] at h
  obtain ⟨hoj, hov⟩ := h.isJson_and_le hd hv
  refine ⟨hoj, hov, fun w hw how hwv => ?_⟩
  obtain ⟨o', ho', ha⟩ := h.between hd hn hv hr hw how hwv (Or.inl hu)
  exact ⟨o', run_eq_accepted_iff.2 ho', ha⟩

/-- Two objects of which each keeps one property. -/
def eitherProperty : Value :=
  .object [(.text "allOf", .list [
    .object [(.text "type", .text "object"),
      (.text "properties", .object [(.text "a", .object [(.text "type", .text "boolean")])])],
    .object [(.text "type", .text "object"),
      (.text "properties", .object [(.text "b", .object [(.text "type", .text "string")])])]])]

theorem compile_accepts_between_allOf :
    ∃ V, compile eitherProperty .strip "#" = .ok V ∧ V.UnionFree ∧
      V.run (.object [(.text "b", .text "x"), (.text "c", .null), (.text "a", .bool true)]) =
        .ok (.accepted (.object [(.text "a", .bool true), (.text "b", .text "x")])) ∧
      ∃ o', V.run (.object [(.text "b", .text "x"), (.text "a", .bool true)]) = .ok (.accepted o') ∧
        o'.Alike (.object [(.text "a", .bool true), (.text "b", .text "x")]) := by
  let V : Validator := .both "#/allOf"
    (.object "#/allOf/0" [("a", .kind "#/allOf/0/properties/a" "boolean")] [] .strip)
    (.object "#/allOf/1"
      [("b", .text "#/allOf/1/properties/b" ⟨none, none, none, none, false⟩)] [] .strip)
  have hV : compile eitherProperty .strip "#" = .ok V := by cbv
  have hrun : V.run (.object [(.text "b", .text "x"), (.text "c", .null), (.text "a", .bool true)]) =
      .ok (.accepted (.object [(.text "a", .bool true), (.text "b", .text "x")])) := by cbv
  have hfree : V.UnionFree := by decide
  obtain ⟨-, -, hbetween⟩ := compile_accepts_between (by decide) hV (by decide) (by decide)
    (by decide) (by decide) hrun
  obtain ⟨o', ho', ha⟩ := hbetween (.object [(.text "b", .text "x"), (.text "a", .bool true)])
    (by decide) (by decide) (by decide)
  exact ⟨V, hV, hfree, hrun, o', ho', ha hfree⟩

/-- A bound that is not a number, in a union that does not come to it as long as
    the property `a` is there. -/
def hiddenBound : Value :=
  .object [(.text "anyOf", .list [
    .object [(.text "allOf", .list [
      .object [(.text "anyOf", .list [
        .object [(.text "type", .text "object"),
          (.text "properties", .object [(.text "a", .object [])]),
          (.text "required", .list [.text "a"])],
        .object [(.text "type", .text "object"),
          (.text "properties", .object [(.text "s", .object [(.text "type", .text "string"),
            (.text "minLength", .text "x")])])]])],
      .bool false])],
    .object [(.text "type", .text "object"), (.text "properties", .object [(.text "s", .object [])])]])]

/-- With a bound that is not a number the cleaned copy of an accepted value can
    end in a fault. -/
theorem compile_accepts_between_fails :
    ¬ ∀ (s : Value) (mode : Closedness) (p : String) (V : Validator), s.IsJson →
      compile s mode p = .ok V → V.RepeatFree → ∀ v o : Value, v.IsJson → v.InRange →
      V.run v = .ok (.accepted o) → ∀ w : Value, w.IsJson → o ≤ w → w ≤ v →
      ∃ o', V.run w = .ok (.accepted o') := by
  intro h
  let V : Validator := .union "#/anyOf"
    [.both "#/anyOf/0/allOf"
      (.union "#/anyOf/0/allOf/0/anyOf"
        [.object "#/anyOf/0/allOf/0/anyOf/0" [("a", .any "#/anyOf/0/allOf/0/anyOf/0/properties/a")]
          [.text "a"] .strip,
        .object "#/anyOf/0/allOf/0/anyOf/1"
          [("s", .text "#/anyOf/0/allOf/0/anyOf/1/properties/s"
            ⟨some (.text "x"), none, none, none, false⟩)] [] .strip])
      (.never "#/anyOf/0/allOf/1"),
    .object "#/anyOf/1" [("s", .any "#/anyOf/1/properties/s")] [] .strip]
  have hV : compile hiddenBound .strip "#" = .ok V := by cbv
  have hrun : V.run (.object [(.text "s", .text "t"), (.text "a", .null)]) =
      .ok (.accepted (.object [(.text "s", .text "t")])) := by cbv
  have hfault : V.run (.object [(.text "s", .text "t")]) = .error .boundNotNumber := by cbv
  obtain ⟨o', ho'⟩ := h hiddenBound .strip "#" V (by decide) hV (by decide) _ _ (by decide) (by decide)
    hrun (.object [(.text "s", .text "t")]) (by decide) (by decide) (by decide)
  rw [hfault] at ho'
  cases ho'

/-! ## Unique elements -/

theorem mem_nodes_of_unionOf {p : String} {Vs : List Validator} {V W : Validator}
    (hV : unionOf p Vs = .ok V) (hW : W ∈ Vs) : W ∈ V.nodes := by
  rcases unionOf_eq_ok_iff.1 hV with rfl | ⟨-, rfl⟩
  · obtain rfl := List.mem_singleton.1 hW; exact W.self_mem_nodes
  · exact mem_nodes_iff.2 (Or.inr ⟨W, hW, W.self_mem_nodes⟩)

/-- Read under the name of a type, a node accepts lists only as an array. -/
theorem exists_list_of_name [CharacterNames] {mode : Closedness} {fields : Fields} {name p : String}
    {V : Validator}
    (hV : compileTyped mode fields (.text name) p = .ok V) {xs : List Value} {o : Value}
    (h : V.Accepts (.list xs) o) : ∃ items, V = .list p items (listRules fields) := by
  have hV' := hV
  rw [compileTyped.eq_def] at hV
  split at hV
  next heq => cases heq
  next heq => cases heq
  next heq =>
    obtain ⟨pattern, -, hV⟩ := bind_eq_ok_iff.1 hV
    cases hV; obtain ⟨s, hs, -⟩ := accepts_text_iff.1 h; cases hs
  next heq => cases hV; obtain ⟨n, hn, -⟩ := accepts_number_iff.1 h; cases hn
  next heq => cases hV; obtain ⟨n, hn, -⟩ := accepts_number_iff.1 h; cases hn
  next heq => cases hV; exact absurd (accepts_kind_iff.1 h).1 (by simp [Value.kind])
  next heq => cases hV; exact absurd (accepts_kind_iff.1 h).1 (by simp [Value.kind])
  next heq =>
    cases heq
    obtain ⟨node, items, -, -, -, rfl⟩ := compileTyped_array_eq_ok_iff.1 hV'
    exact ⟨items, rfl⟩
  next heq =>
    cases heq
    obtain ⟨-, properties, required, -, -, -, rfl⟩ := compileTyped_object_eq_ok_iff.1 hV'
    obtain ⟨fs, out, hfs, -⟩ := accepts_object_iff.1 h
    cases hfs
  next => cases hV

/-- An array node, or a node with a list of type names, accepts lists through a
    node that has its rules for lists. -/
theorem exists_list_of_types [CharacterNames] {mode : Closedness} {fields : Fields} {type : Value}
    {p : String}
    {V : Validator} (ht : type = .text "array" ∨ ∃ names : List String, type = .list (names.map Value.text))
    (hV : compileTyped mode fields type p = .ok V) {xs : List Value} {o : Value}
    (h : V.Accepts (.list xs) o) : ∃ q items, .list q items (listRules fields) ∈ V.nodes ∧
      (Validator.list q items (listRules fields)).Accepts (.list xs) o := by
  rcases ht with rfl | ⟨names, rfl⟩
  · obtain ⟨items, rfl⟩ := exists_list_of_name hV h
    exact ⟨p, items, self_mem_nodes _, h⟩
  · obtain ⟨Vs, hVs, hV⟩ := compileTyped_list_eq_ok_iff.1 hV
    obtain ⟨W, hW, h⟩ := exists_accepts_of_unionOf hV h
    have hlist := hVs.forall_mem (Q := fun W => W.Accepts (.list xs) o →
        ∃ q items, W = .list q items (listRules fields)) (fun t ht q W hW h => by
      obtain ⟨name, -, rfl⟩ := List.mem_map.1 ht
      obtain ⟨items, rfl⟩ := exists_list_of_name hW h
      exact ⟨q, items, rfl⟩) W hW h
    obtain ⟨q, items, rfl⟩ := hlist
    exact ⟨q, items, mem_nodes_of_unionOf hV hW, h⟩

section
variable {xs ys : List Value}

/-- Copies of different elements are the same data only if one of them lost
    something. -/
theorem pairwise_zip_of_pairwise (hle : List.Forall₂ (· ≤ ·) ys xs) (hx : ∀ x ∈ xs, x.IsJson)
    (hy : ∀ y ∈ ys, y.IsJson) (hxs : xs.Pairwise fun x y => ¬ x.sameData y) :
    (xs.zip ys).Pairwise fun a b => a.2.sameData b.2 → ¬ a.2.Alike a.1 ∨ ¬ b.2.Alike b.1 := by
  have hfst : (xs.zip ys).Pairwise fun a b => ¬ a.1.sameData b.1 := by
    rw [← List.map_fst_zip hle.length_eq.ge] at hxs
    exact List.pairwise_map.1 hxs
  refine hfst.imp_of_mem fun {a b} ha hb hab hsame => ?_
  rw [← not_and_or]
  rintro ⟨haa, hbb⟩
  obtain ⟨hax, hay⟩ := List.of_mem_zip ha
  obtain ⟨hbx, hby⟩ := List.of_mem_zip hb
  have hac := haa.canonical_eq (hy _ hay) (hx _ hax)
  have hbc := hbb.canonical_eq (hy _ hby) (hx _ hbx)
  rw [sameData_iff] at hab hsame
  exact hab (hac.symm.trans (hsame.trans hbc))

/-- Copies that lost nothing are as different as the elements. -/
theorem pairwise_of_pairwise_zip (hle : List.Forall₂ (· ≤ ·) ys xs)
    (hge : List.Forall₂ (· ≤ ·) xs ys) (hzip : (xs.zip ys).Pairwise fun a b =>
      a.2.sameData b.2 → ¬ a.2.Alike a.1 ∨ ¬ b.2.Alike b.1) :
    ys.Pairwise fun x y => ¬ x.sameData y := by
  have halike : ∀ a ∈ xs.zip ys, a.2.Alike a.1 := fun a ha =>
    ⟨List.forall₂_zip hle.flip ha, List.forall₂_zip hge ha⟩
  have hsnd : (xs.zip ys).Pairwise fun a b => ¬ a.2.sameData b.2 := by
    refine hzip.imp_of_mem fun {a b} ha hb hab hsame => ?_
    rcases hab hsame with h | h
    exacts [h (halike a ha), h (halike b hb)]
  have hmap : ((xs.zip ys).map Prod.snd).Pairwise fun x y => ¬ x.sameData y :=
    List.pairwise_map.2 hsnd
  rwa [List.map_snd_zip hle.length_eq.le] at hmap

end

/-- **Unique elements.** No two elements that were handed in are the same data;
    two returned elements are so only if cleaning took something out of one of
    them, which it does not without stripping nodes. -/
theorem compile_uniqueItems [CharacterNames] {fields : Fields} {type : Value} {mode : Closedness}
    {p : String}
    {V : Validator} (hs : Value.IsJson (.object fields)) (hr : fields.reading = .typed type)
    (ht : type = .text "array" ∨ ∃ names : List String, type = .list (names.map Value.text))
    (hu : fields.named? "uniqueItems" = some (.bool true))
    (hV : compile (.object fields) mode p = .ok V) {xs : List Value} {o : Value}
    (hv : Value.IsJson (.list xs)) (h : V.run (.list xs) = .ok (.accepted o)) :
    ∃ ys, o = .list ys ∧ List.Forall₂ (· ≤ ·) ys xs ∧
      (xs.Pairwise fun x y => ¬ x.sameData y) ∧
      ((xs.zip ys).Pairwise fun a b => a.2.sameData b.2 → ¬ a.2.Alike a.1 ∨ ¬ b.2.Alike b.1) ∧
      (mode ≠ .strip ∨ V.Keeping → ys.Pairwise fun x y => ¬ x.sameData y) := by
  rw [run_eq_accepted_iff] at h
  have hd := distinctNames_compile hs hV
  obtain ⟨hoj, hle⟩ := h.isJson_and_le hd hv
  have hkeep : mode ≠ .strip ∨ V.Keeping → V.Keeping := by
    rintro (hm | hk)
    exacts [keeping_compile hm hs hV, hk]
  rw [compile, compileNode, compileFields_eq, hr] at hV
  obtain ⟨q, items, hmem, hl⟩ := exists_list_of_types ht hV h
  obtain ⟨_, ys, ⟨⟩, -, -, hrep, rfl⟩ := accepts_list_iff.1 hl
  have hxs : xs.Pairwise fun x y => ¬ x.sameData y := by
    refine repeats_eq_nil_iff.1 (hrep ?_)
    simp [listRules, hu]
  rw [list_le_list] at hle
  have hzip := pairwise_zip_of_pairwise hle (isJson_list.1 hv) (isJson_list.1 hoj) hxs
  refine ⟨ys, rfl, hle, hxs, hzip, fun hk => ?_⟩
  have hge : List.Forall₂ (· ≤ ·) xs ys := list_le_list.1
    (Keeping.le_output ((hkeep hk).of_mem_nodes hmem) (hd.of_mem_nodes hmem) hv hl)
  exact pairwise_of_pairwise_zip hle hge hzip

/-- Different elements, of which each keeps one property. -/
def uniqueRecords : Fields :=
  [(.text "type", .text "array"), (.text "uniqueItems", .bool true),
    (.text "items", .object [(.text "type", .text "object"),
      (.text "properties", .object [(.text "a", .object [(.text "type", .text "boolean")])])])]

/-- The validator of `uniqueRecords`. -/
def uniqueRecordsTree : Validator :=
  .list "#" (.object "#/items" [("a", .kind "#/items/properties/a" "boolean")] [] .strip)
    ⟨none, none, true⟩

theorem compile_uniqueItems_records : ∃ ys,
    uniqueRecordsTree.run (.list [.object [(.text "a", .bool true), (.text "x", .null)],
      .object [(.text "a", .bool false)]]) = .ok (.accepted (.list ys)) ∧
    (([.object [(.text "a", .bool true), (.text "x", .null)],
      .object [(.text "a", .bool false)]] : List Value).zip ys).Pairwise fun a b =>
        a.2.sameData b.2 → ¬ a.2.Alike a.1 ∨ ¬ b.2.Alike b.1 := by
  have hV : compile (.object uniqueRecords) .strip "#" = .ok uniqueRecordsTree := by cbv
  have hrun : uniqueRecordsTree.run (.list [.object [(.text "a", .bool true), (.text "x", .null)],
      .object [(.text "a", .bool false)]]) =
      .ok (.accepted (.list [.object [(.text "a", .bool true)], .object [(.text "a", .bool false)]])) := by
    cbv
  obtain ⟨ys, hys, -, -, hzip, -⟩ := compile_uniqueItems (by decide) (by cbv) (Or.inl rfl) (by cbv) hV
    (by decide) hrun
  exact ⟨ys, hys ▸ hrun, hzip⟩

/-- Cleaning can make elements the same data that were not. -/
theorem compile_uniqueItems_returned_fails :
    ¬ ∀ (fields : Fields) (mode : Closedness) (p : String) (V : Validator),
      Value.IsJson (.object fields) → fields.reading = .typed (.text "array") →
      fields.named? "uniqueItems" = some (.bool true) → compile (.object fields) mode p = .ok V →
      ∀ v : Value, v.IsJson → ∀ ys, V.run v = .ok (.accepted (.list ys)) →
      ys.Pairwise fun x y => ¬ x.sameData y := by
  intro h
  have hV : compile (.object uniqueRecords) .strip "#" = .ok uniqueRecordsTree := by cbv
  have hrun : uniqueRecordsTree.run
      (.list [.object [(.text "a", .bool true), (.text "x", .null)],
        .object [(.text "a", .bool true)]]) =
      .ok (.accepted (.list [.object [(.text "a", .bool true)], .object [(.text "a", .bool true)]])) := by
    cbv
  have := h uniqueRecords .strip "#" _ (by decide) (by cbv) (by cbv) hV _ (by decide) _ hrun
  simp at this

end SchemaGuard
