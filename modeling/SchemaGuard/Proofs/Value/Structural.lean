/-
  SchemaGuard — sameness of data is structural.

  On JSON data without NaNs, `sameData` decides `SameJson`, so it is an equivalence
  relation there, and the search for repeated elements, which keeps a set of canonical
  forms, finds exactly the elements that are equal as JSON data to an earlier one
  (`sameData_structural`).
-/
import Mathlib
import SchemaGuard.Proofs.Validator.Findings
import SchemaGuard.Proofs.Value.SameData

namespace SchemaGuard

namespace Value

section
variable {v w : Value}

/-- On JSON data without NaNs, being the same data is structural equality. -/
theorem sameData_iff_sameJson (hv : v.IsJson) (hw : w.IsJson) (hn : v.NaNFree) :
    v.sameData w ↔ v.SameJson w := by
  rw [sameData_iff, canonical_eq_iff hv hw hn]

/-- JSON data without NaNs. -/
abbrev Numeric := {v : Value // v.IsJson ∧ v.NaNFree}

theorem equivalence_sameJson : Equivalence fun v w : Numeric => v.1.SameJson w.1 where
  refl v := (canonical_eq_iff v.2.1 v.2.1 v.2.2).1 rfl
  symm {v w} h := (canonical_eq_iff w.2.1 v.2.1 w.2.2).1 (h.canonical_eq v.2.1 w.2.1).symm
  trans {u v w} huv hvw := (canonical_eq_iff u.2.1 w.2.1 u.2.2).1
    ((huv.canonical_eq u.2.1 v.2.1).trans (hvw.canonical_eq v.2.1 w.2.1))

/-- A repeated element is one that is equal as JSON data to an element before it. -/
theorem mem_repeats_iff_sameJson {items : List Value} (hj : IsJson (.list items))
    (hn : NaNFree (.list items)) {i : Nat} : i ∈ repeats items ↔
      ∃ j x y, j < i ∧ items[i]? = some x ∧ items[j]? = some y ∧ x.SameJson y := by
  rw [isJson_list] at hj
  rw [naNFree_list] at hn
  rw [Validator.mem_repeats_iff]
  constructor
  · rintro ⟨j, y, x, hlt, hy, hx, hsame⟩
    have hmem := List.mem_of_getElem? hx
    exact ⟨j, x, y, hlt, hx, hy,
      (sameData_iff_sameJson (hj x hmem) (hj y (List.mem_of_getElem? hy)) (hn x hmem)).1 hsame⟩
  · rintro ⟨j, x, y, hlt, hx, hy, hsame⟩
    have hmem := List.mem_of_getElem? hx
    exact ⟨j, y, x, hlt, hy, hx,
      (sameData_iff_sameJson (hj x hmem) (hj y (List.mem_of_getElem? hy)) (hn x hmem)).2 hsame⟩

end

/-- **Sameness of data is structural equality.** JSON data without NaNs are the same data
    exactly if they are equal as JSON data: the same null, truth value or text, numbers of
    one exact value in whatever form, lists of pairwise equal elements, objects with the
    same keys and equal values under each. This is an equivalence relation, it is equality
    of canonical forms, and the elements of a list that count as repeated are those that
    are equal to an element before them. -/
theorem sameData_structural :
    (∀ v w : Value, v.IsJson → w.IsJson → v.NaNFree → w.NaNFree →
      (v.sameData w ↔ v.SameJson w) ∧ (v.canonical = w.canonical ↔ v.sameData w)) ∧
    (Equivalence fun v w : Numeric => v.1.sameData w.1 = true) ∧
    ∀ items : List Value, IsJson (.list items) → NaNFree (.list items) → ∀ i,
      i ∈ repeats items ↔ ∃ j x y, j < i ∧ items[i]? = some x ∧ items[j]? = some y ∧ x.SameJson y := by
  refine ⟨fun v w hv hw hn _ => ⟨sameData_iff_sameJson hv hw hn, (sameData_iff v w).symm⟩, ?_,
    fun items hj hn i => mem_repeats_iff_sameJson hj hn⟩
  have hsame : (fun v w : Numeric => v.1.sameData w.1 = true) = fun v w : Numeric => v.1.SameJson w.1 :=
    funext fun v => funext fun w => propext (sameData_iff_sameJson v.2.1 w.2.1 v.2.2)
  rw [hsame]
  exact equivalence_sameJson

/-- A list of three readings, with the doubles given: the numbers first as doubles and then
    as integers, the keys in two orders, and at last the integer 1 in place of the truth
    value. -/
def readings (x y : Double) : List Value :=
  [.object [(.text "on", .bool true), (.text "at", .list [.double x, .double y])],
    .object [(.text "at", .list [.int 1, .int 0]), (.text "on", .bool true)],
    .object [(.text "at", .list [.int 1, .int 0]), (.text "on", .int 1)]]

theorem sameData_structural_readings :
    1 ∈ repeats (readings (.finite false 1023 0) (.zero true)) ∧
    2 ∉ repeats (readings (.finite false 1023 0) (.zero true)) ∧
    sameData (.object [(.text "at", .list [.int 1, .int 0]), (.text "on", .bool true)])
      (.object [(.text "on", .bool true),
        (.text "at", .list [.double (.finite false 1023 0), .double (.zero true)])]) := by
  obtain ⟨hsame, -, hrepeats⟩ := sameData_structural
  have hj : IsJson (.list (readings (.finite false 1023 0) (.zero true))) := by decide
  have hn : NaNFree (.list (readings (.finite false 1023 0) (.zero true))) := by decide
  have hone : (Number.double (.finite false 1023 0)).value? = (Number.int 1).value? := by
    rw [Number.value?_int]
    exact Number.toInt?_eq_some_iff.1 (by decide +kernel)
  have hzero : (Number.double (.zero true)).value? = (Number.int 0).value? := by
    rw [Number.value?_int]
    exact Number.toInt?_eq_some_iff.1 (by decide +kernel)
  have hat : SameJson (.list [.int 1, .int 0])
      (.list [.double (.finite false 1023 0), .double (.zero true)]) := .list rfl fun i hx _ => by
    rcases i with _ | _ | i
    · exact .number (Number.value?_int 1) (hone.trans (Number.value?_int 1))
    · exact .number (Number.value?_int 0) (hzero.trans (Number.value?_int 0))
    · simp at hx
  have hfirst : SameJson (.object [(.text "at", .list [.int 1, .int 0]), (.text "on", .bool true)])
      (.object [(.text "on", .bool true),
        (.text "at", .list [.double (.finite false 1023 0), .double (.zero true)])]) := by
    refine .object (fun k => by simp [Fields.keys, or_comm]) fun k x y hx hy => ?_
    simp only [Fields.lookup_cons, List.lookup_nil] at hx hy
    by_cases hk : k = .text "at"
    · subst hk; simp at hx hy; subst hx hy; exact hat
    · by_cases hk' : k = .text "on"
      · subst hk'; simp at hx hy; subst hx hy; exact .bool true
      · simp [hk, hk'] at hx
  have hlast : ∀ gs : Fields, List.lookup (.text "on") gs = some (.bool true) →
      ¬ SameJson (.object [(.text "at", .list [.int 1, .int 0]), (.text "on", .int 1)]) (.object gs) := by
    intro gs hg h
    cases h with
    | object _ hvalues => cases hvalues (.text "on") _ _ rfl hg
  refine ⟨(hrepeats _ hj hn 1).2 ⟨0, _, _, Nat.zero_lt_one, rfl, rfl, hfirst⟩, fun h => ?_,
    (hsame _ _ (by decide) (by decide) (by decide) (by decide)).1.2 hfirst⟩
  obtain ⟨j, x, y, hlt, hx, hy, hxy⟩ := (hrepeats _ hj hn 2).1 h
  cases hx
  rcases j with _ | _ | j
  · cases hy; exact hlast _ rfl hxy
  · cases hy; exact hlast _ rfl hxy
  · omega

end Value

end SchemaGuard
