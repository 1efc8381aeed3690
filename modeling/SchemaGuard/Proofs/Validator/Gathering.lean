/-
  SchemaGuard — intersections of any number of validators.

  `V.Gathers parts` says that `V` acts as the intersection of its parts: it settles
  what all parts settle, its issues are those of the parts in their order, and its cleaned
  copy is the join of theirs.

  * `Gathers.both`, `gathers_intersectionOf`: intersections gather what their members
    gather;
  * `Gathers.agrees`: validators that gather the same trees, in any order and each at one
    of several places, agree.
-/
import Mathlib
import SchemaGuard.Compile
import SchemaGuard.Proofs.Validator.Cleaning
import SchemaGuard.Proofs.Value.Entries

namespace SchemaGuard

namespace Validator

open Value

/-! ## Issues of checks that settle -/

/-- The issues of a check; none if it ends with a fault. -/
def issuesOf (V : Validator) (v : Value) : List Issue :=
  match V.check v [] with
  | .ok (_, issues) => issues
  | .error _ => []

section
variable {V W left right : Validator} {v o : Value} {p : String}

theorem Settles.exists_check (h : V.Settles v) : ∃ o, V.check v [] = .ok (o, V.issuesOf v) := by
  obtain ⟨⟨o, issues⟩, h⟩ := h
  exact ⟨o, by rw [issuesOf, h]⟩

/-- What settles is accepted exactly if it has no issues. -/
theorem exists_accepts_iff : (∃ o, V.Accepts v o) ↔ V.Settles v ∧ V.issuesOf v = [] := by
  constructor
  · rintro ⟨o, h⟩
    refine ⟨h.settles, ?_⟩
    rw [Accepts] at h
    rw [issuesOf, h]
  · rintro ⟨hs, hempty⟩
    obtain ⟨o, ho⟩ := hs.exists_check
    rw [hempty] at ho
    exact ⟨o, ho⟩

theorem issuesOf_both (hl : left.Settles v) (hr : right.Settles v) :
    (both p left right).issuesOf v = left.issuesOf v ++ right.issuesOf v := by
  obtain ⟨lo, hl⟩ := hl.exists_check
  obtain ⟨ro, hr⟩ := hr.exists_check
  rw [issuesOf, check_both, hl, hr]
  simp only [bind, Except.bind]
  by_cases hempty : (left.issuesOf v ++ right.issuesOf v).isEmpty
  · rw [if_pos hempty]; exact (List.isEmpty_iff.1 hempty).symm
  · rw [if_neg hempty]; rfl

end

/-! ## Gathering -/

/-- A validator acts as the intersection of its parts. -/
structure Gathers (V : Validator) (parts : List Validator) : Prop where
  settles : ∀ v, V.Settles v ↔ ∀ W ∈ parts, W.Settles v
  issues : ∀ v, V.Settles v → V.issuesOf v = parts.flatMap fun W => W.issuesOf v
  joins : ∀ v o, v.IsJson → V.Accepts v o → IsJoin v {x | ∃ W ∈ parts, W.Accepts v x} o

section
variable {V W : Validator} {parts parts' : List Validator} {p : String}

theorem gathers_self (hd : V.DistinctNames) : V.Gathers [V] where
  settles := by simp
  issues := by simp
  joins := fun v o hv h => by
    have honly : {x | ∃ W ∈ [V], W.Accepts v x} = {o} := by
      ext x
      simp only [List.mem_singleton, exists_eq_left, Set.mem_ofPred_eq, Set.mem_singleton_iff]
      exact ⟨fun hx => hx.output_eq h, fun hx => hx ▸ h⟩
    obtain ⟨hoj, hov⟩ := h.isJson_and_le hd hv
    rw [honly]
    exact isJoin_singleton hoj hov

theorem Gathers.both (hV : V.Gathers parts) (hW : W.Gathers parts') :
    (both p V W).Gathers (parts ++ parts') where
  settles := fun v => by
    rw [settles_both_iff, hV.settles, hW.settles, List.forall_mem_append]
  issues := fun v h => by
    obtain ⟨hl, hr⟩ := settles_both_iff.1 h
    rw [issuesOf_both hl hr, hV.issues v hl, hW.issues v hr, List.flatMap_append]
  joins := fun v o hv h => by
    obtain ⟨l, r, hl, hr, rfl⟩ := accepts_both_iff.1 h
    have hunion : {x | ∃ U ∈ parts ++ parts', U.Accepts v x} =
        {x | ∃ U ∈ parts, U.Accepts v x} ∪ {x | ∃ U ∈ parts', U.Accepts v x} := by
      ext x
      simp only [List.mem_append, or_and_right, exists_or, Set.mem_ofPred_eq, Set.mem_union]
    rw [hunion]
    exact (hV.joins v l hv hl).merge (hW.joins v r hv hr)

/-- An intersection gathers what its members gather. -/
theorem gathers_intersectionOf {Vs : List Validator} {partss : List (List Validator)}
    (h : List.Forall₂ Gathers Vs partss) (hne : Vs ≠ []) :
    (intersectionOf p Vs).Gathers partss.flatten := by
  obtain _ | ⟨hV, hrest⟩ := h
  · exact absurd rfl hne
  next V parts Vs partss =>
    rw [intersectionOf, List.flatten_cons]
    clear hne
    -- the fold has come to `V`, which gathers what the members up to here gather
    induction hrest generalizing V parts with
    | nil => simpa using hV
    | cons hW _ ih =>
      rw [List.foldl_cons, List.flatten_cons, ← List.append_assoc]
      exact ih (hV.both hW)

/-- What a validator gathers accepts, each part by itself, what the validator accepts. -/
theorem Gathers.exists_accepts_iff (h : V.Gathers parts) {v : Value} :
    (∃ o, V.Accepts v o) ↔ ∀ W ∈ parts, ∃ o, W.Accepts v o := by
  simp only [Validator.exists_accepts_iff, forall_and, ← h.settles]
  refine and_congr_right fun hs => ?_
  rw [h.issues v hs, List.flatMap_eq_nil_iff]

end

/-! ## One tree at several places -/

section
variable {V W : Validator} {f : String → String} {v o : Value}

theorem settles_mapPointers_iff : (V.mapPointers f).Settles v ↔ V.Settles v := by
  rw [Settles, Settles, check_mapPointers]
  cases V.check v [] <;> simp [Except.map]

theorem accepts_mapPointers_iff : (V.mapPointers f).Accepts v o ↔ V.Accepts v o := by
  rw [Accepts, Accepts, check_mapPointers]
  rcases V.check v [] with e | ⟨o', issues⟩ <;> simp [Except.map]

theorem issuesOf_mapPointers :
    (V.mapPointers f).issuesOf v = (V.issuesOf v).map (Issue.mapPointers f) := by
  rw [issuesOf, issuesOf, check_mapPointers]
  rcases V.check v [] with e | ⟨o, issues⟩ <;> rfl

end

end Validator

/-- One issue at two places: the schema nodes that it names are the same, seen from
    one place and from another. -/
def Issue.SameApart (IsPlace : String → Prop) (i j : Issue) : Prop :=
  ∃ (k : Issue) (a b : String), IsPlace a ∧ IsPlace b ∧
    i = k.mapPointers (a ++ ·) ∧ j = k.mapPointers (b ++ ·)

/-- Two answers that accept with the same output, up to the order of fields, or reject
    with the same issues, up to their order and to the places of what reports them, or both
    end in faults. -/
def Agrees (IsPlace : String → Prop) : (answer answer' : Except Fault Verdict) → Prop
  | .ok (.accepted o), .ok (.accepted o') => o.Alike o'
  | .ok (.rejected issues), .ok (.rejected issues') =>
    ∃ apart, List.Forall₂ (Issue.SameApart IsPlace) issues apart ∧ apart.Perm issues'
  | .error _, .error _ => True
  | _, _ => False

namespace Validator

open Value

/-- One tree at two places. -/
def SameTree (IsPlace : String → Prop) (V W : Validator) : Prop :=
  ∃ (U : Validator) (a b : String), IsPlace a ∧ IsPlace b ∧
    V = U.mapPointers (a ++ ·) ∧ W = U.mapPointers (b ++ ·)

section
variable {IsPlace : String → Prop} {V W : Validator} {v o : Value}

theorem SameTree.settles_iff (h : SameTree IsPlace V W) : V.Settles v ↔ W.Settles v := by
  obtain ⟨U, a, b, -, -, rfl, rfl⟩ := h
  rw [settles_mapPointers_iff, settles_mapPointers_iff]

theorem SameTree.accepts_iff (h : SameTree IsPlace V W) : V.Accepts v o ↔ W.Accepts v o := by
  obtain ⟨U, a, b, -, -, rfl, rfl⟩ := h
  rw [accepts_mapPointers_iff, accepts_mapPointers_iff]

theorem SameTree.issuesOf (h : SameTree IsPlace V W) :
    List.Forall₂ (Issue.SameApart IsPlace) (V.issuesOf v) (W.issuesOf v) := by
  obtain ⟨U, a, b, ha, hb, rfl, rfl⟩ := h
  rw [issuesOf_mapPointers, issuesOf_mapPointers, List.forall₂_map_left_iff, List.forall₂_map_right_iff]
  exact List.forall₂_same.2 fun k _ => ⟨k, a, b, ha, hb, rfl, rfl⟩

section
variable {parts apart parts' : List Validator} (hV : V.Gathers parts) (hW : W.Gathers parts')
  (hapart : List.Forall₂ (SameTree IsPlace) parts apart) (hperm : apart.Perm parts')

include hV hW hapart hperm

theorem Gathers.settles_iff : V.Settles v ↔ W.Settles v := by
  rw [hV.settles, hW.settles, forall_mem_congr hapart fun _ _ hsame => hsame.settles_iff]
  simp only [hperm.mem_iff]

theorem Gathers.issues_apart (hs : V.Settles v) (hs' : W.Settles v) :
    ∃ is, List.Forall₂ (Issue.SameApart IsPlace) (V.issuesOf v) is ∧ is.Perm (W.issuesOf v) := by
  rw [hV.issues v hs, hW.issues v hs']
  exact ⟨_, List.rel_flatMap hapart fun _ _ hsame => hsame.issuesOf, hperm.flatMap_right _⟩

theorem Gathers.alike (hv : v.IsJson) {o' : Value} (ho : V.Accepts v o) (ho' : W.Accepts v o') :
    o.Alike o' := by
  have hcopies : {x | ∃ U ∈ parts, U.Accepts v x} = {x | ∃ U ∈ parts', U.Accepts v x} := by
    ext x
    rw [Set.mem_ofPred_eq, exists_mem_congr hapart fun _ _ hsame => hsame.accepts_iff]
    simp only [hperm.mem_iff, Set.mem_ofPred_eq]
  have hjoin := hV.joins v o hv ho
  rw [hcopies] at hjoin
  exact hjoin.alike (hW.joins v o' hv ho')

/-- **The order and the places of what is gathered do not matter.** -/
theorem Gathers.agrees (hv : v.IsJson) : Agrees IsPlace (V.run v) (W.run v) := by
  have hsettles := hV.settles_iff hW hapart hperm (v := v)
  by_cases hs : V.Settles v
  · have hs' := hsettles.1 hs
    obtain ⟨o, ho⟩ := hs.exists_check
    obtain ⟨o', ho'⟩ := hs'.exists_check
    obtain ⟨is, his, hisperm⟩ := hV.issues_apart hW hapart hperm hs hs'
    by_cases hempty : V.issuesOf v = []
    · rw [hempty, List.forall₂_nil_left_iff] at his
      rw [his, List.nil_perm] at hisperm
      rw [hempty] at ho
      rw [hisperm] at ho'
      rw [run_eq_accepted_iff.2 ho, run_eq_accepted_iff.2 ho']
      exact hV.alike hW hapart hperm hv ho ho'
    · have hempty' : W.issuesOf v ≠ [] := by
        intro heq
        rw [heq, List.perm_nil] at hisperm
        rw [hisperm, List.forall₂_nil_right_iff] at his
        exact hempty his
      rw [run_eq_rejected_iff.2 ⟨hempty, o, ho⟩, run_eq_rejected_iff.2 ⟨hempty', o', ho'⟩]
      exact ⟨is, his, hisperm⟩
  · have hs' := mt hsettles.2 hs
    rw [settles_iff_run] at hs hs'
    rcases hr : V.run v with e | verdict
    · rcases hr' : W.run v with e' | verdict'
      · trivial
      · exact absurd ⟨_, hr'⟩ hs'
    · exact absurd ⟨_, hr⟩ hs

end

end

end Validator

end SchemaGuard
