/-
  SchemaGuard — what compiled validators report.

  Main result: `compile_reports`, that the issues of a verdict are the flaws of the
  value, each once.
-/
import Mathlib
import SchemaGuard.Proofs.MetaSchema.Bounds
import SchemaGuard.Proofs.Validator.Cleaning
import SchemaGuard.Proofs.Validator.Reporting

namespace SchemaGuard

open Validator

/-- **Issues are sound and complete.** A verdict reports the flaws of the value, each
    by one issue with the pointer of the violated node and the place of the flaw,
    and accepts the value if there are none. The causes of a failed union are in turn
    what its branches report, branch after branch, and at every depth there is one for
    each branch, at least. Where bounds are numbers, as in every schema that the
    meta-schema of a dialect but draft 3 admits, there is a verdict. That messages cannot
    show an integer of a schema with more than `digitLimit` digits is left out. -/
theorem compile_reports [CharacterNames] {s : Value} {mode : Closedness} {p : String} {V : Validator}
    (hs : s.DistinctKeys) (hV : compile s mode p = .ok V) (v : Value) :
    (v.InRange → (V.NumericSizes ∨ ∃ draft, draft ≠ .three ∧ ∃ q, Draft.check draft s q = .ok ()) →
      ∃ verdict, V.run v = .ok verdict) ∧
    ∀ verdict, V.run v = .ok verdict → V.Reports v [] verdict.issues ∧
      ((∃ o, verdict = .accepted o) ↔ ∀ a, ¬ V.HasFlaw v a) ∧
      ∀ i ∈ Issue.allOf verdict.issues, HasCauses i := by
  refine ⟨fun hv hsizes => ?_, fun verdict hrun => ?_⟩
  · have hn : V.NumericSizes := by
      rcases hsizes with hn | ⟨draft, hdraft, q, hq⟩
      · exact hn
      · exact numericSizes_of_check hdraft hq hV
    exact settles_iff_run.1 (hn.settles hv)
  · obtain ⟨o, hcheck⟩ := exists_check_of_run hrun
    have hreports := reports_of_check (distinctNames_of_distinctKeys hs hV) hcheck
    refine ⟨hreports, ?_, hreports.hasCauses⟩
    rw [← hreports.eq_nil_iff]
    cases verdict with
    | accepted o => exact iff_of_true ⟨o, rfl⟩ rfl
    | rejected issues =>
      have hne := (run_eq_rejected_iff.1 hrun).1
      exact iff_of_false nofun hne

/-- A moment that is a number or a truth value, too. -/
def impossibleMoment : Value :=
  .object [(.text "allOf", .list [
    .object [(.text "type", .text "string"), (.text "minLength", .int 3),
      (.text "format", .text "date-time")],
    .object [(.text "anyOf", .list [.object [(.text "type", .text "integer")],
      .object [(.text "type", .text "boolean")]])]])]

theorem compile_reports_impossibleMoment : ∃ V issues, compile impossibleMoment .strip "#" = .ok V ∧
    V.run (.text "x") = .ok (.rejected issues) ∧ V.Reports (.text "x") [] issues ∧
    issues.map Issue.pointer = ["#/allOf/0", "#/allOf/0", "#/allOf/1/anyOf"] ∧
    ∃ a, V.HasFlaw (.text "x") a := by
  let V : Validator := .both "#/allOf"
    (.text "#/allOf/0" ⟨some (.int 3), none, none, none, true⟩)
    (.union "#/allOf/1/anyOf" [.number "#/allOf/1/anyOf/0" ⟨true, none, none, none, none⟩,
      .kind "#/allOf/1/anyOf/1" "boolean"])
  let issues : List Issue := [.mk "#/allOf/0" [] (.tooShort (.int 3)) [],
    .mk "#/allOf/0" [] .notDateTime [],
    .mk "#/allOf/1/anyOf" [] (.noAlternative 2)
      [.mk "#/allOf/1/anyOf/0" [] (.wrongKind "integer" "string") [],
       .mk "#/allOf/1/anyOf/1" [] (.wrongKind "boolean" "string") []]]
  have hV : compile impossibleMoment .strip "#" = .ok V := by cbv
  have hrun : V.run (.text "x") = .ok (.rejected issues) := by cbv
  obtain ⟨-, hverdict⟩ := compile_reports (by decide) hV (.text "x")
  obtain ⟨hreports, hflaws, -⟩ := hverdict _ hrun
  have hflaw : ∃ a, V.HasFlaw (.text "x") a := by
    by_contra hno
    obtain ⟨o, ho⟩ := hflaws.2 (not_exists.1 hno)
    cases ho
  exact ⟨V, issues, hV, hrun, hreports, rfl, hflaw⟩

end SchemaGuard
