/-
  SchemaGuard — what `check` tells about the other uses of a schema.

  Checking a schema against its meta-schema and compiling it ends in one way, whatever the
  default for undeclared properties and wherever the schema is (`prepare_cases`). A tool is
  registered and an instance validated by preparing schemas, so `check` predicts how both
  end: that is the main result, `check_predicts`.
-/
import Mathlib
import SchemaGuard.Command.Run
import SchemaGuard.Proofs.Compile.Modes

namespace SchemaGuard

/-! ## Ends of preparations -/

/-- Where a preparation reports: violations of the meta-schema at one place, and nodes that
    cannot be compiled behind another. -/
structure Base where
  checkedAt : String
  pointer : String

/-- Failures of one class and for one reason, each told from its own base. -/
inductive RegisterFailure.Alike (b b' : Base) : RegisterFailure → RegisterFailure → Prop where
  | invalid (violations : List Violation) :
    Alike b b' (.invalid ⟨violations, b.checkedAt⟩) (.invalid ⟨violations, b'.checkedAt⟩)
  | conversion (problem : SchemaProblem) (place : String) :
    Alike b b' (.conversion ⟨problem, b.pointer ++ place⟩)
      (.conversion ⟨problem, b'.pointer ++ place⟩)
  | fault (f : Fault) : Alike b b' (.fault f) (.fault f)

/-- Both give something, or fail alike. -/
inductive EndAlike {α β : Type} (b b' : Base) :
    Except RegisterFailure α → Except RegisterFailure β → Prop where
  | done (x : α) (y : β) : EndAlike b b' (.ok x) (.ok y)
  | failed {e e' : RegisterFailure} : e.Alike b b' e' → EndAlike b b' (.error e) (.error e')

theorem EndAlike.bind_right {α β γ : Type} {b b' : Base} {x : Except RegisterFailure α}
    {y : Except RegisterFailure β} {k : β → Except RegisterFailure γ} (h : EndAlike b b' x y)
    (hk : ∀ c, ∃ d, k c = .ok d) : EndAlike b b' x (y >>= k) := by
  cases h with
  | failed he => exact .failed he
  | done a c =>
    obtain ⟨d, hd⟩ := hk c
    rw [show (Except.ok c >>= k) = .ok d from hd]
    exact .done a d

theorem EndAlike.eq_fault {α β : Type} {b b' : Base} {f : Fault} {y : Except RegisterFailure β}
    (h : EndAlike (α := α) b b' (.error (.fault f)) y) : y = .error (.fault f) := by
  cases h with
  | failed he => cases he; rfl

theorem EndAlike.exists_ok_iff {α β : Type} {b b' : Base} {x : Except RegisterFailure α}
    {y : Except RegisterFailure β} (h : EndAlike b b' x y) : (∃ a, x = .ok a) ↔ ∃ c, y = .ok c := by
  cases h with
  | done a c => exact ⟨fun _ => ⟨c, rfl⟩, fun _ => ⟨a, rfl⟩⟩
  | failed _ => exact iff_of_false nofun nofun

/-! ## Preparing -/

theorem checkSchema_cases [CharacterNames] (s : Value) : (∃ f, ∀ q, checkSchema s q = .error f) ∨
    (∃ violations, ∀ q, checkSchema s q = .ok (.error ⟨violations, q⟩)) ∨
    ∀ q, checkSchema s q = .ok (.ok ()) := by
  unfold checkSchema
  cases Draft.ofDocument s with
  | error f => exact Or.inl ⟨f, fun _ => rfl⟩
  | ok draft =>
    simp only [bind, Except.bind, pure, Except.pure, Draft.check]
    cases draft.sortedViolations s with
    | nil => exact Or.inr (Or.inr fun _ => rfl)
    | cons v violations => exact Or.inr (Or.inl ⟨v :: violations, fun _ => rfl⟩)

theorem compile_cases [CharacterNames] (s : Value) : (∃ f, ∀ mode p, compile s mode p = .error (.fault f)) ∨
    (∃ problem place, ∀ mode p, compile s mode p = .error (.refused ⟨problem, p ++ place⟩)) ∨
    ∀ mode p, ∃ V, compile s mode p = .ok V := by
  have h : ∀ mode p, compile s mode p =
      (relabeled (p ++ ·) (Validator.mapPointers (p ++ ·)) (compile s .strip "")).map
        (Validator.withModes mode.over) := fun mode p => by
    rw [compile_eq_map_withModes, ← compile_append, String.append_empty]
  cases hs : compile s .strip "" with
  | ok V => exact Or.inr (Or.inr fun mode p => ⟨_, by rw [h, hs]; rfl⟩)
  | error e =>
    cases e with
    | fault f => exact Or.inl ⟨f, fun mode p => by rw [h, hs]; rfl⟩
    | refused e => exact Or.inr (Or.inl ⟨e.problem, e.pointer, fun mode p => by rw [h, hs]; rfl⟩)

/-- A preparation ends in one of four ways, which the schema alone decides. -/
theorem prepare_cases [CharacterNames] (s : Value) : (∃ f, ∀ mode q p, prepare s mode q p = .error (.fault f)) ∨
    (∃ violations, ∀ mode q p, prepare s mode q p = .error (.invalid ⟨violations, q⟩)) ∨
    (∃ problem place, ∀ mode q p,
      prepare s mode q p = .error (.conversion ⟨problem, p ++ place⟩)) ∨
    ∀ mode q p, ∃ V, prepare s mode q p = .ok V := by
  obtain ⟨f, hf⟩ | ⟨violations, hv⟩ | hok := checkSchema_cases s
  · exact Or.inl ⟨f, fun mode q p => by simp only [prepare, hf]⟩
  · exact Or.inr (Or.inl ⟨violations, fun mode q p => by simp only [prepare, hv]⟩)
  obtain ⟨f, hf⟩ | ⟨problem, place, hr⟩ | hV := compile_cases s
  · exact Or.inl ⟨f, fun mode q p => by simp only [prepare, hok, hf]⟩
  · exact Or.inr (Or.inr (Or.inl ⟨problem, place, fun mode q p => by simp only [prepare, hok, hr]⟩))
  · refine Or.inr (Or.inr (Or.inr fun mode q p => ?_))
    obtain ⟨V, hV⟩ := hV mode p
    exact ⟨V, by simp only [prepare, hok, hV]⟩

theorem prepare_endAlike [CharacterNames] (s : Value) (mode mode' : Closedness) (q p q' p' : String) :
    EndAlike ⟨q, p⟩ ⟨q', p'⟩ (prepare s mode q p) (prepare s mode' q' p') := by
  obtain ⟨f, hf⟩ | ⟨violations, hv⟩ | ⟨problem, place, hr⟩ | hV := prepare_cases s
  · rw [hf, hf]; exact .failed (.fault f)
  · rw [hv, hv]; exact .failed (.invalid violations)
  · rw [hr, hr]; exact .failed (.conversion problem place)
  · obtain ⟨V, hV₁⟩ := hV mode q p
    obtain ⟨V', hV₂⟩ := hV mode' q' p'
    rw [hV₁, hV₂]
    exact .done V V'

/-! ## Registering -/

/-- A manifest without its output schema. -/
def Manifest.inputOnly (m : Manifest) : Manifest := { m with schemaOut := .null }

section
variable {m : Manifest} {settings : Settings}

theorem register_of_null [CharacterNames] (h : m.schemaOut = .null) : register m settings =
    prepare m.schema settings.input (m.pointer ++ "/schema") (m.pointer ++ "/schema") >>=
      fun input => .ok ⟨m, input, none⟩ := by
  simp only [register, h, if_true]
  rfl

theorem register_of_not_null [CharacterNames] (h : m.schemaOut ≠ .null) : register m settings =
    prepare m.schema settings.input (m.pointer ++ "/schema") (m.pointer ++ "/schema") >>= fun input =>
      prepare m.schemaOut settings.output (m.pointer ++ "/schemaOut") (m.pointer ++ "/schemaOut") >>=
        fun output => .ok ⟨m, input, some output⟩ := by
  simp only [register, h, if_false]
  rfl

/-- A registration without an output schema ends like a preparation of the input schema. -/
theorem register_endAlike_of_null [CharacterNames] (h : m.schemaOut = .null) (mode : Closedness) (q p : String) :
    EndAlike ⟨q, p⟩ ⟨m.pointer ++ "/schema", m.pointer ++ "/schema"⟩
      (prepare m.schema mode q p) (register m settings) := by
  rw [register_of_null h]
  exact (prepare_endAlike ..).bind_right fun input => ⟨_, rfl⟩

/-- Behind an input schema that can be registered, it ends like one of the output schema. -/
theorem register_endAlike_of_not_null [CharacterNames] (h : m.schemaOut ≠ .null)
    (hin : ∃ t, register m.inputOnly settings = .ok t) (mode : Closedness)
    (q p : String) : EndAlike ⟨q, p⟩ ⟨m.pointer ++ "/schemaOut", m.pointer ++ "/schemaOut"⟩
      (prepare m.schemaOut mode q p) (register m settings) := by
  obtain ⟨t, ht⟩ := hin
  rw [register_of_null rfl] at ht
  obtain ⟨input, hinput, -⟩ := bind_eq_ok_iff.1 ht
  rw [register_of_not_null h, show prepare m.schema settings.input (m.pointer ++ "/schema")
    (m.pointer ++ "/schema") = .ok input from hinput]
  exact (prepare_endAlike ..).bind_right fun output => ⟨_, rfl⟩

end

/-! ## Commands -/

namespace Command

section
variable {around : Surroundings} {source instanceSource : String} {d inst : Value}

/-- A file that holds JSON gives its value. -/
theorem load_of_json {s : String} {v : Value} (ha : isAddress source = false)
    (hz : source.toList.contains '\x00' = false) (hy : holdsYaml source = false)
    (hf : around.file source = .text s) (hv : Json.read (withLineFeeds s.toList) = .ok v) :
    load around source = .ok v := by
  simp only [load, loadDocument, readSource, ha, hz, hf, hy, Bool.false_eq_true, if_false, bind,
    Except.bind, hv]
  rfl

theorem runCheck_of_load [CharacterNames] (hd : load around source = .ok d) (pointer : String) :
    runCheck around source pointer = prepared (prepare d .strip pointer pointer) >>= fun _ =>
      .ok (.success ("OK: " ++ source ++ "\n")) := by
  simp only [runCheck, hd]
  rfl

theorem runValidate_of_load [CharacterNames] {settings : Settings} (hd : load around source = .ok d)
    (hi : load around instanceSource = .ok inst) (hs : Command.settings around = .ok settings)
    (closedness : Option Closedness) (format : Format) :
    runValidate around source instanceSource closedness format =
      prepared (prepare d (closedness.getD settings.input) "#/schema" "#") >>= fun V =>
        match V.run inst with
        | .ok verdict => printVerdict format verdict
        | .error f => .error (.faulted f) := by
  simp only [runValidate, hd, hi, hs]
  rfl

end

end Command

/-! ## Predictions -/

/-- **`check` predicts every consumer.** What checking a schema gives, under the default
    `strip` and at any pointer, is what every other preparation of it gives, and every
    registration that depends on this schema alone: something, or a failure of the same class
    and for the same reason, told from the base of each. And where the command `check` says
    that a schema is well, the command `validate` goes on to the instance with the validator
    of its mode; where it refuses the schema, both end with failures that are alike. -/
theorem check_predicts [CharacterNames] (d : Value) (pointer : String) :
    (∀ mode q p, EndAlike ⟨pointer, pointer⟩ ⟨q, p⟩
      (prepare d .strip pointer pointer) (prepare d mode q p)) ∧
    (∀ (m : Manifest) settings, m.schema = d → m.schemaOut = .null →
      EndAlike ⟨pointer, pointer⟩ ⟨m.pointer ++ "/schema", m.pointer ++ "/schema"⟩
        (prepare d .strip pointer pointer) (register m settings)) ∧
    (∀ (m : Manifest) settings, m.schemaOut = d → d ≠ .null →
      (∃ t, register m.inputOnly settings = .ok t) →
      EndAlike ⟨pointer, pointer⟩ ⟨m.pointer ++ "/schemaOut", m.pointer ++ "/schemaOut"⟩
        (prepare d .strip pointer pointer) (register m settings)) ∧
    ∀ around source instanceSource settings inst closedness format,
      Command.load around source = .ok d → Command.load around instanceSource = .ok inst →
      Command.settings around = .ok settings →
      (∃ V, prepare d (closedness.getD settings.input) "#/schema" "#" = .ok V ∧
        Command.runCheck around source pointer = .ok (.success ("OK: " ++ source ++ "\n")) ∧
        Command.runValidate around source instanceSource closedness format =
          match V.run inst with
          | .ok verdict => Command.printVerdict format verdict
          | .error f => .error (.faulted f)) ∨
      ∃ e e', RegisterFailure.Alike ⟨pointer, pointer⟩ ⟨"#/schema", "#"⟩ e e' ∧
        Command.runCheck around source pointer = .error (Command.refusal e) ∧
        Command.runValidate around source instanceSource closedness format =
          .error (Command.refusal e') := by
  refine ⟨fun mode q p => prepare_endAlike d .strip mode pointer pointer q p, ?_, ?_, ?_⟩
  · rintro m settings rfl hnull
    exact register_endAlike_of_null hnull .strip pointer pointer
  · rintro m settings rfl hnull hin
    exact register_endAlike_of_not_null hnull hin .strip pointer pointer
  intro around source instanceSource settings inst closedness format hd hi hs
  rw [Command.runCheck_of_load hd, Command.runValidate_of_load hd hi hs]
  have hboth := prepare_endAlike d .strip (closedness.getD settings.input) pointer pointer "#/schema" "#"
  generalize prepare d .strip pointer pointer = checked at hboth
  generalize hprepared : prepare d (closedness.getD settings.input) "#/schema" "#" = prepared at hboth
  cases hboth with
  | done _ V => exact Or.inl ⟨V, rfl, rfl, rfl⟩
  | failed he => exact Or.inr ⟨_, _, he, rfl, rfl⟩

/-- A switch that is on or off. -/
def switchSchema : Value := .object [(.text "type", .text "boolean")]

/-- A tool that takes a switch and gives what `out` describes. -/
def switchLamp (out : Value) : Manifest :=
  { name := "lamp", description := "Switches a lamp", schema := switchSchema, schemaOut := out,
    implKind := .mock, implConfig := [], category := .null }

/-- A directory with the schema of a switch and a switch. -/
def switchDesk : Command.Surroundings where
  file := fun path =>
    if path = "switch.json" then .text "\x7b\"type\": \"boolean\"\x7d"
    else if path = "on.json" then .text "true"
    else .missing
  page := fun _ => ⟨404, ""⟩
  env := ⟨"", "", ""⟩
  config := .absent

theorem check_predicts_switch :
    (∃ t, register (switchLamp .null) .default = .ok t) ∧
    (∃ t, register (switchLamp switchSchema) .default = .ok t) ∧
    ∃ V, prepare switchSchema .strict "#/schema" "#" = .ok V ∧
      Command.runCheck switchDesk "switch.json" "#" = .ok (.success "OK: switch.json\n") ∧
      Command.runValidate switchDesk "switch.json" "on.json" none .text =
        match V.run (.bool true) with
        | .ok verdict => Command.printVerdict .text verdict
        | .error f => .error (.faulted f) := by
  have hchecked : prepare switchSchema .strip "#" "#" = .ok (.kind "#" "boolean") := by cbv
  have hdone : ∀ {t : Except RegisterFailure Tool} {b : Base},
      EndAlike ⟨"#", "#"⟩ b (prepare switchSchema .strip "#" "#") t → ∃ tool, t = .ok tool := by
    intro t b h
    rw [hchecked] at h
    cases h with
    | done _ tool => exact ⟨tool, rfl⟩
  have hd : Command.load switchDesk "switch.json" = .ok switchSchema :=
    Command.load_of_json (by decide +kernel) (by decide +kernel) (by decide +kernel) rfl (by cbv)
  have hi : Command.load switchDesk "on.json" = .ok (.bool true) :=
    Command.load_of_json (by decide +kernel) (by decide +kernel) (by decide +kernel) rfl (by cbv)
  have hs : Command.settings switchDesk = .ok .default := by cbv
  obtain ⟨-, hin, hout, hcommands⟩ := check_predicts switchSchema "#"
  have hregistered := hdone (hin (switchLamp .null) .default rfl rfl)
  refine ⟨hregistered, hdone (hout (switchLamp switchSchema) .default rfl (by decide) hregistered), ?_⟩
  obtain hready | ⟨e, e', -, he, -⟩ := hcommands _ _ _ _ _ none .text hd hi hs
  · exact hready
  · rw [Command.runCheck_of_load hd, hchecked] at he
    cases he

end SchemaGuard
