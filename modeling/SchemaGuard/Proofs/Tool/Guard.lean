/-
  SchemaGuard — guarded calls.

  The validators of a tool that was registered under settings without `strip` come
  to a verdict on all JSON data, take nothing out of it and accept what they pass
  on (`Faithful`), if the bounds in them are numbers. So a guarded call is the handler,
  called once with the arguments, between two such checks (`register_guarded`).
-/
import Mathlib
import SchemaGuard.Proofs.MetaSchema.Bounds
import SchemaGuard.Proofs.Validator.Cleaning
import SchemaGuard.Tool

namespace SchemaGuard

open Validator Value

/-! ## Verdicts that lose nothing -/

/-- A validator accepts a value, loses nothing of it and accepts the copy again. -/
structure Validator.Passes (V : Validator) (v clean : Value) : Prop where
  accepted : V.run v = .ok (.accepted clean)
  alike : clean.Alike v
  again : ∃ o, V.run clean = .ok (.accepted o)

/-- A validator passes or rejects all JSON data. -/
def Validator.Faithful (V : Validator) : Prop := ∀ v : Value, v.IsJson → v.InRange →
  (∃ clean, V.Passes v clean) ∨ ∃ issues, V.run v = .ok (.rejected issues)

theorem Validator.faithful_of_keeping {V : Validator} (hd : V.DistinctNames) (hk : V.Keeping)
    (hn : V.NumericSizes) : V.Faithful := by
  intro v hv hr
  obtain ⟨verdict, hrun⟩ := settles_iff_run.1 (hn.settles hr)
  cases verdict with
  | rejected issues => exact Or.inr ⟨issues, hrun⟩
  | accepted o =>
    have h := run_eq_accepted_iff.1 hrun
    obtain ⟨hoj, hov⟩ := h.isJson_and_le hd hv
    have hvo : v ≤ o := hk.le_output hd hv h
    obtain ⟨o', ho', -⟩ := h.between hd hn.inUnions hv hr hoj (le_refl hoj) hov (Or.inr hvo)
    exact Or.inl ⟨o, hrun, ⟨hov, hvo⟩, o', run_eq_accepted_iff.2 ho'⟩

/-! ## Registered tools -/

theorem prepare_eq_ok [CharacterNames] {s : Value} {mode : Closedness} {q p : String} {V : Validator}
    (h : prepare s mode q p = .ok V) : checkSchema s q = .ok (.ok ()) ∧ compile s mode p = .ok V := by
  unfold prepare at h
  split at h
  next => cases h
  next => cases h
  next hc =>
    split at h
    next hV => cases h; exact ⟨hc, hV⟩
    next => cases h
    next => cases h

theorem faithful_of_prepare [CharacterNames] {s : Value} {mode : Closedness} {q p : String} {V : Validator}
    (hs : s.DistinctKeys) (hm : mode ≠ .strip) (h : prepare s mode q p = .ok V) (hn : V.NumericSizes) :
    V.Faithful :=
  faithful_of_keeping (distinctNames_of_distinctKeys hs (prepare_eq_ok h).2)
    (keeping_of_distinctKeys hm hs (prepare_eq_ok h).2) hn

/-- A document of a dialect that knows how schemas are combined is prepared with numbers as bounds. -/
theorem numericSizes_of_prepare [CharacterNames] {s : Value} {mode : Closedness} {q p : String} {V : Validator}
    (h : prepare s mode q p = .ok V) (hdraft : Draft.ofDocument s ≠ .ok .three) : V.NumericSizes := by
  obtain ⟨hc, hV⟩ := prepare_eq_ok h
  obtain ⟨draft, hof, hcheck⟩ := checkSchema_eq_ok_iff.1 hc
  exact numericSizes_of_check (fun hthree => hdraft (hthree ▸ hof)) hcheck hV

/-- A registered tool keeps its manifest and the validators of its schemas, each prepared at
    its own pointer. -/
theorem register_eq_ok_iff [CharacterNames] {m : Manifest} {settings : Settings} {t : Tool} :
    register m settings = .ok t ↔ t.manifest = m ∧
      prepare m.schema settings.input (m.pointer ++ "/schema") (m.pointer ++ "/schema") = .ok t.input ∧
      match t.output with
      | none => m.schemaOut = .null
      | some V => m.schemaOut ≠ .null ∧
          prepare m.schemaOut settings.output (m.pointer ++ "/schemaOut") (m.pointer ++ "/schemaOut") =
            .ok V := by
  unfold register
  simp only [bind_eq_ok_iff]
  obtain ⟨manifest, input, output⟩ := t
  constructor
  · rintro ⟨W, hin, h⟩
    split at h
    next hnull => cases h; exact ⟨rfl, hin, hnull⟩
    next hnull =>
      obtain ⟨V, hout, h⟩ := bind_eq_ok_iff.1 h
      cases h
      exact ⟨rfl, hin, hnull, hout⟩
  · rintro ⟨rfl, hin, hout⟩
    refine ⟨input, hin, ?_⟩
    cases output with
    | none => exact if_pos hout
    | some V => rw [if_neg hout.1, hout.2]; rfl

/-- The validators of a registered tool are those of its prepared schemas. -/
theorem register_eq_ok [CharacterNames] {m : Manifest} {settings : Settings} {t : Tool}
    (h : register m settings = .ok t) :
    (∃ q p, prepare m.schema settings.input q p = .ok t.input) ∧
      ∀ V, t.output = some V → ∃ q p, prepare m.schemaOut settings.output q p = .ok V := by
  obtain ⟨-, hin, hout⟩ := register_eq_ok_iff.1 h
  refine ⟨⟨_, _, hin⟩, fun V hV => ?_⟩
  rw [hV] at hout
  exact ⟨_, _, hout.2⟩

/-! ## Calls -/

namespace Tool

section
variable {ε : Type} {t : Tool}

theorem answer_raised (t : Tool) (e : ε) : t.answer (.error e) = .error (.raised e) := rfl

theorem answer_of_none (h : t.output = none) (r : Value) : t.answer (ε := ε) (.ok r) = .ok r := by
  simp [answer, checkOutput, h, accept]

theorem answer_of_run {V : Validator} (h : t.output = some V) {r : Value} {verdict : Verdict}
    (hrun : V.run r = .ok verdict) : t.answer (ε := ε) (.ok r) = accept (.ok verdict) := by
  simp [answer, checkOutput, h, hrun]

/-- A call with rejected arguments ends with the issues, before the handler. -/
theorem guarded_of_rejected {m : Type → Type} [Monad m] {handler : Value → m (Except ε Value)}
    {args : Value} {issues : List Issue} (h : t.input.run args = .ok (.rejected issues)) :
    t.guarded handler args = pure (.error (.rejected issues)) := by
  simp [guarded, checkInput, h, accept]

/-- A call with accepted arguments is one call of the handler. -/
theorem guarded_of_accepted {m : Type → Type} [Monad m] {handler : Value → m (Except ε Value)}
    {args clean : Value} (h : t.input.run args = .ok (.accepted clean)) :
    t.guarded handler args = (do return t.answer (← handler clean)) := by
  simp [guarded, checkInput, h, accept]

/-- The handler receives what the input validator accepts, and nothing else. -/
theorem wrap_received_iff {handler : Value → Except ε Value} {args clean : Value} :
    (t.wrap handler args).received = some clean ↔ t.input.run args = .ok (.accepted clean) := by
  unfold wrap guarded checkInput
  rcases t.input.run args with f | o | issues
  · exact iff_of_false nofun nofun
  · change some o = some clean ↔ _
    simp
  · exact iff_of_false nofun nofun

end

end Tool

/-- **The guard is airtight.** Rejected arguments end a call with their issues,
    before the handler; accepted ones make it one call of the handler with a copy of
    the arguments that is accepted again. The failure of the handler is that of the
    call, its result is returned as a copy that the output schema accepts, or ends
    the call with the issues of the result. For both checks the bounds in the
    validators are to be numbers; so they are unless the schema is one of draft 3.
    That messages cannot show an integer of a schema with more than `digitLimit` digits
    is left out. -/
theorem register_guarded [CharacterNames] {manifest : Manifest} {settings : Settings} {t : Tool}
    (hin : manifest.schema.DistinctKeys) (hout : manifest.schemaOut.DistinctKeys)
    (hi : settings.input ≠ .strip) (ho : settings.output ≠ .strip)
    (h : register manifest settings = .ok t) {ε : Type} {m : Type → Type} [Monad m]
    (handler : Value → m (Except ε Value)) {args : Value} (ha : args.IsJson) (hr : args.InRange) :
    (Draft.ofDocument manifest.schema ≠ .ok .three → t.input.NumericSizes) ∧
    (∀ V, t.output = some V → Draft.ofDocument manifest.schemaOut ≠ .ok .three → V.NumericSizes) ∧
    (t.input.NumericSizes → (∃ issues, t.input.run args = .ok (.rejected issues) ∧
        t.guarded handler args = pure (.error (.rejected issues))) ∨
      ∃ clean, t.input.Passes args clean ∧
        t.guarded handler args = (do return t.answer (← handler clean))) ∧
    (∀ e : ε, t.answer (.error e) = .error (.raised e)) ∧
    ∀ r : Value, r.IsJson → r.InRange →
      match t.output with
      | none => t.answer (ε := ε) (.ok r) = .ok r
      | some V => V.NumericSizes →
        (∃ clean, V.Passes r clean ∧ t.answer (ε := ε) (.ok r) = .ok clean) ∨
          ∃ issues, V.run r = .ok (.rejected issues) ∧
            t.answer (ε := ε) (.ok r) = .error (.rejected issues) := by
  obtain ⟨⟨q, p, hinput⟩, houtput⟩ := register_eq_ok h
  refine ⟨numericSizes_of_prepare hinput, fun V hV hdraft => ?_, fun hn => ?_, t.answer_raised,
    fun r hrj hrr => ?_⟩
  · obtain ⟨q, p, hprepared⟩ := houtput V hV
    exact numericSizes_of_prepare hprepared hdraft
  · rcases faithful_of_prepare hin hi hinput hn args ha hr with ⟨clean, hclean⟩ | ⟨issues, hissues⟩
    · exact Or.inr ⟨clean, hclean, Tool.guarded_of_accepted hclean.accepted⟩
    · exact Or.inl ⟨issues, hissues, Tool.guarded_of_rejected hissues⟩
  · split
    next hV => exact Tool.answer_of_none hV r
    next V hV =>
      intro hn
      obtain ⟨q, p, hprepared⟩ := houtput V hV
      rcases faithful_of_prepare hout ho hprepared hn r hrj hrr with ⟨clean, hclean⟩ | ⟨issues, hissues⟩
      · exact Or.inl ⟨clean, hclean, Tool.answer_of_run hV hclean.accepted⟩
      · exact Or.inr ⟨issues, hissues, Tool.answer_of_run hV hissues⟩

/-- A tool that takes a record with a switch and gives a switch. -/
def switchTool : Manifest :=
  { name := "flip", description := "Flips a switch",
    schema := .object [(.text "type", .text "object"),
      (.text "properties", .object [(.text "on", .object [(.text "type", .text "boolean")])]),
      (.text "required", .list [.text "on"])],
    schemaOut := .object [(.text "type", .text "boolean")],
    implKind := .custom, implConfig := [], category := .null }

/-- Turns a switch off and counts how often it is called. -/
def countedFlip (_ : Value) : StateM Nat (Except String Value) := do
  modify (· + 1)
  return .ok (.bool false)

theorem register_guarded_switch : ∃ t clean, register switchTool .default = .ok t ∧
    t.input.Passes (.object [(.text "on", .bool true)]) clean ∧
    t.guarded countedFlip (.object [(.text "on", .bool true)]) =
      (do return t.answer (← countedFlip clean)) := by
  let t : Tool := ⟨switchTool,
    .object "#/tools/flip/schema" [("on", .kind "#/tools/flip/schema/properties/on" "boolean")]
      [.text "on"] .strict,
    some (.kind "#/tools/flip/schemaOut" "boolean")⟩
  have ht : register switchTool .default = .ok t := by cbv
  have hrun : t.input.run (.object [(.text "on", .bool true)]) =
      .ok (.accepted (.object [(.text "on", .bool true)])) := by cbv
  have hargs : Value.IsJson (.object [(.text "on", .bool true)]) := by decide
  obtain ⟨hnumbers, -, hcalls, -, -⟩ :=
    register_guarded (by decide) (by decide) (by decide) (by decide) ht countedFlip hargs (by decide)
  have hdraft : Draft.ofDocument switchTool.schema ≠ .ok .three := by decide
  rcases hcalls (hnumbers hdraft) with ⟨issues, hissues, -⟩ | ⟨clean, hclean, hcall⟩
  · rw [hrun] at hissues; cases hissues
  · exact ⟨t, clean, ht, hclean, hcall⟩

end SchemaGuard
