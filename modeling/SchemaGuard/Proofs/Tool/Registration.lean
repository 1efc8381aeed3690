/-
  SchemaGuard — registering a list of entries.

  A registration goes from entry to entry (`registerEntry`, `registerFrom_append`) and ends
  in the failure of the first entry that has one (`registerFrom_eq_error_iff`).

  * `EntryUnfit taken index v f`: reading the entry `v` ends with the fault `f`, because of the
    settings of its implementation, or one of its schemas is unfit;
  * `RegisterFailure.shown`: the data in the message of a failure.

  Main result: `registerAll_faults`. A registration ends with a fault exactly where it comes
  to an unfit entry.
-/
import Mathlib
import SchemaGuard.Proofs.Compile.Refusals
import SchemaGuard.Proofs.MetaSchema.Locations
import SchemaGuard.Proofs.Tool.Reading
import SchemaGuard.Proofs.Tool.Unfit

namespace SchemaGuard

open Validator

/-! ## From entry to entry -/

/-- The tool of the entry at a position, behind the tools already registered. -/
def registerEntry [CharacterNames] (settings : Settings) (registered : List Tool) (index : Nat) (entry : Entry) :
    Except RegisterFailure Tool := do
  let m ← entry.manifest index
  if registered.any fun t => t.name == m.name then
    .error (.manifest ⟨.duplicateName m.name, "#/tools"⟩)
  else register m settings

section
variable {settings : Settings} {registered : List Tool} {index : Nat}

theorem registerFrom_cons [CharacterNames] (entry : Entry) (entries : List Entry) :
    registerFrom settings index registered (entry :: entries) =
      registerEntry settings registered index entry >>= fun tool =>
        registerFrom settings (index + 1) (registered ++ [tool]) entries := by
  rw [registerFrom, registerEntry, bind_assoc]
  refine congrArg _ (funext fun m => ?_)
  split <;> rfl

theorem registerFrom_append [CharacterNames] (entries entries' : List Entry) :
    registerFrom settings index registered (entries ++ entries') =
      registerFrom settings index registered entries >>= fun tools =>
        registerFrom settings (index + entries.length) tools entries' := by
  induction entries generalizing index registered with
  | nil => rfl
  | cons entry entries ih =>
    rw [List.cons_append, registerFrom_cons, registerFrom_cons, bind_assoc]
    refine congrArg _ (funext fun tool => ?_)
    rw [ih, List.length_cons, Nat.add_assoc, Nat.add_comm 1]

/-- A registration fails with the failure of the first entry that has one. -/
theorem registerFrom_eq_error_iff [CharacterNames] {entries : List Entry} {e : RegisterFailure} :
    registerFrom settings index registered entries = .error e ↔
      ∃ before entry after tools, entries = before ++ entry :: after ∧
        registerFrom settings index registered before = .ok tools ∧
        registerEntry settings tools (index + before.length) entry = .error e := by
  constructor
  · intro h
    induction entries generalizing index registered with
    | nil => cases h
    | cons entry entries ih =>
      rw [registerFrom_cons] at h
      rcases bind_eq_error_iff.1 h with hentry | ⟨tool, htool, h⟩
      · exact ⟨[], entry, entries, registered, rfl, rfl, hentry⟩
      · obtain ⟨before, entry', after, tools, rfl, hbefore, hentry⟩ := ih h
        refine ⟨entry :: before, entry', after, tools, rfl, ?_, ?_⟩
        · rw [registerFrom_cons, htool]; exact hbefore
        · rwa [List.length_cons, Nat.add_comm before.length, ← Nat.add_assoc]
  · rintro ⟨before, entry, after, tools, rfl, hbefore, hentry⟩
    rw [registerFrom_append, hbefore]
    change registerFrom settings (index + before.length) tools (entry :: after) = _
    rw [registerFrom_cons, hentry]
    rfl

end

/-! ## What failures show -/

/-- The data in the message of a failure. -/
def RegisterFailure.shown : RegisterFailure → List Value
  | manifest e => e.problem.shown
  | invalid e => e.violations.map Violation.value
  | conversion e => e.problem.shown
  | fault _ => []

section
variable [CharacterNames] {s : Value} {e : RegisterFailure}

/-- A document that violates its meta-schema is refused with all its violations. -/
theorem violations_of_checkSchema {q : String} {invalid : InvalidSchema}
    (h : checkSchema s q = .ok (.error invalid)) :
    ∃ draft : Draft, invalid.violations = draft.sortedViolations s := by
  unfold checkSchema at h
  obtain ⟨draft, -, h⟩ := bind_eq_ok_iff.1 h
  have hcheck : draft.check s q = .error invalid := Except.ok.inj h
  unfold Draft.check at hcheck
  dsimp only at hcheck
  split at hcheck <;> cases hcheck
  exact ⟨draft, rfl⟩

/-- A schema that can be shown is refused with a message that can be made. -/
theorem showable_of_prepare (hj : s.IsJson) (hs : s.Showable) {mode : Closedness} {q p : String}
    (h : prepare s mode q p = .error e) : ∀ x ∈ e.shown, x.Showable := by
  unfold prepare at h
  split at h
  next => cases h; exact List.forall_mem_nil _
  next hchecked =>
    cases h
    obtain ⟨draft, hviolations⟩ := violations_of_checkSchema hchecked
    intro x hx
    obtain ⟨violation, hmem, rfl⟩ := List.mem_map.1 hx
    exact hs.part (Value.part?_mem_parts (draft.part?_of_mem_sortedViolations hj (hviolations ▸ hmem)))
  next =>
    split at h
    next => cases h
    next hcompiled => cases h; exact showable_of_refused hs hcompiled
    next => cases h; exact List.forall_mem_nil _

theorem showable_of_register {m : Manifest} (hin : m.schema.IsJson ∧ m.schema.Showable)
    (hout : m.schemaOut.IsJson ∧ m.schemaOut.Showable) {settings : Settings}
    (h : register m settings = .error e) : ∀ x ∈ e.shown, x.Showable := by
  by_cases hnull : m.schemaOut = .null
  · rw [register_of_null hnull] at h
    rcases bind_eq_error_iff.1 h with h | ⟨_, -, h⟩
    · exact showable_of_prepare hin.1 hin.2 h
    · cases h
  · rw [register_of_not_null hnull] at h
    rcases bind_eq_error_iff.1 h with h | ⟨_, -, h⟩
    · exact showable_of_prepare hin.1 hin.2 h
    · rcases bind_eq_error_iff.1 h with h | ⟨_, -, h⟩
      · exact showable_of_prepare hout.1 hout.2 h
      · cases h

end

/-! ## Unfit entries -/

section
variable {m : Manifest} {settings : Settings} {f : Fault}

theorem register_eq_fault_iff [CharacterNames] (hin : m.schema.IsJson) (hout : m.schemaOut.IsJson) :
    register m settings = .error (.fault f) ↔ SchemaUnfit m.schema f ∨
      (∃ V, prepare m.schema .strip "#" "#" = .ok V) ∧ m.schemaOut ≠ .null ∧
        SchemaUnfit m.schemaOut f := by
  by_cases hnull : m.schemaOut = .null
  · rw [register_of_null hnull, bind_eq_error_iff, prepare_eq_fault_iff hin]
    simp [hnull]
  · have hprepared := (prepare_endAlike m.schema .strip settings.input "#" "#"
      (m.pointer ++ "/schema") (m.pointer ++ "/schema")).exists_ok_iff
    rw [register_of_not_null hnull, bind_eq_error_iff, prepare_eq_fault_iff hin, hprepared]
    refine or_congr_right ⟨?_, ?_⟩
    · rintro ⟨input, hinput, h⟩
      rcases bind_eq_error_iff.1 h with houtput | ⟨output, -, h⟩
      · exact ⟨⟨input, hinput⟩, hnull, (prepare_eq_fault_iff hout).1 houtput⟩
      · cases h
    · rintro ⟨⟨input, hinput⟩, -, hunfit⟩
      exact ⟨input, hinput, bind_eq_error_iff.2 (Or.inl ((prepare_eq_fault_iff hout).2 hunfit))⟩

end

/-- The entry at a position ends a registration with a fault. It is right up to the settings of
    its implementation, or it is read, its name is not among those `taken`, and one of its
    schemas is unfit, the input schema first. -/
inductive EntryUnfit [CharacterNames] (taken : List String) (index : Nat) (v : Value) (f : Fault) : Prop where
  | config {fields impl : Fields} : v = .object fields → Manifest.IsFilled (fields.named "name") →
      Manifest.IsFilled (fields.named "description") → fields.has "schema" →
      fields.named "impl" = .object impl → Manifest.ConfigUnfit impl f → EntryUnfit taken index v f
  | input {m} : Manifest.ofValue v index = .ok m → m.name ∉ taken → SchemaUnfit m.schema f →
      EntryUnfit taken index v f
  | output {m V} : Manifest.ofValue v index = .ok m → m.name ∉ taken →
      prepare m.schema .strip "#" "#" = .ok V → m.schemaOut ≠ .null → SchemaUnfit m.schemaOut f →
      EntryUnfit taken index v f

section
variable {v : Value} {index : Nat} {f : Fault}

theorem Manifest.isJson_of_ofValue (hv : v.IsJson) {m : Manifest}
    (h : Manifest.ofValue v index = .ok m) : m.schema.IsJson ∧ m.schemaOut.IsJson := by
  obtain ⟨fields, rfl, hschema, hout⟩ := Manifest.ofValue_eq_ok h
  refine ⟨hv.named? hschema, ?_⟩
  rw [← hout, Fields.named]
  cases hs : fields.named? "schemaOut" with
  | none => decide
  | some schema => exact hv.named? hs

theorem Manifest.showable_of_ofValue_eq_ok (hv : v.Showable) {m : Manifest}
    (h : Manifest.ofValue v index = .ok m) : m.schema.Showable ∧ m.schemaOut.Showable := by
  obtain ⟨fields, rfl, hschema, hout⟩ := Manifest.ofValue_eq_ok h
  exact ⟨hv.named? hschema, hout ▸ hv.named "schemaOut"⟩

theorem manifest_eq_fault_iff :
    (Entry.data v).manifest index = .error (.fault f) ↔
      Manifest.ofValue v index = .error (.fault f) := by
  simp only [Entry.manifest]
  cases Manifest.ofValue v index with
  | ok m => simp
  | error e => cases e <;> simp

theorem manifest_eq_ok_iff {m : Manifest} :
    (Entry.data v).manifest index = .ok m ↔ Manifest.ofValue v index = .ok m := by
  simp only [Entry.manifest]
  cases Manifest.ofValue v index with
  | ok m => simp
  | error e => cases e <;> simp

theorem any_name_iff {registered : List Tool} {name : String} :
    (registered.any fun t => t.name == name) ↔ name ∈ registered.map Tool.name := by
  simp [List.any_eq_true, List.mem_map]

theorem registerEntry_eq_fault_iff [CharacterNames] (hv : v.IsJson) {settings : Settings} {registered : List Tool} :
    registerEntry settings registered index (.data v) = .error (.fault f) ↔
      EntryUnfit (registered.map Tool.name) index v f := by
  unfold registerEntry
  rw [bind_eq_error_iff, manifest_eq_fault_iff]
  constructor
  · rintro (hread | ⟨m, hm, h⟩)
    · obtain ⟨fields, impl, hfields, hname, hdescription, hschema, himpl, hunfit⟩ :=
        Manifest.ofValue_eq_fault_iff.1 hread
      exact .config hfields hname hdescription hschema himpl hunfit
    · rw [manifest_eq_ok_iff] at hm
      obtain ⟨hin, hout⟩ := Manifest.isJson_of_ofValue hv hm
      split at h
      next => cases h
      next hfresh =>
        rw [any_name_iff] at hfresh
        rcases (register_eq_fault_iff hin hout).1 h with hunfit | ⟨⟨V, hV⟩, hnull, hunfit⟩
        · exact .input hm hfresh hunfit
        · exact .output hm hfresh hV hnull hunfit
  · intro h
    cases h with
    | config hfields hname hdescription hschema himpl hunfit =>
      exact Or.inl (Manifest.ofValue_eq_fault_iff.2
        ⟨_, _, hfields, hname, hdescription, hschema, himpl, hunfit⟩)
    | @input m hm hfresh hunfit =>
      obtain ⟨hin, hout⟩ := Manifest.isJson_of_ofValue hv hm
      refine Or.inr ⟨m, manifest_eq_ok_iff.2 hm, ?_⟩
      rw [if_neg (mt any_name_iff.1 hfresh)]
      exact (register_eq_fault_iff hin hout).2 (Or.inl hunfit)
    | @output m V hm hfresh hV hnull hunfit =>
      obtain ⟨hin, hout⟩ := Manifest.isJson_of_ofValue hv hm
      refine Or.inr ⟨m, manifest_eq_ok_iff.2 hm, ?_⟩
      rw [if_neg (mt any_name_iff.1 hfresh)]
      exact (register_eq_fault_iff hin hout).2 (Or.inr ⟨⟨V, hV⟩, hnull, hunfit⟩)

/-- An entry that can be shown is refused with a message that can be made. -/
theorem showable_of_registerEntry [CharacterNames] (hj : v.IsJson) (hs : v.Showable) {settings : Settings}
    {registered : List Tool} {e : RegisterFailure}
    (h : registerEntry settings registered index (.data v) = .error e) : ∀ x ∈ e.shown, x.Showable := by
  unfold registerEntry at h
  rcases bind_eq_error_iff.1 h with hread | ⟨m, hm, h⟩
  · simp only [Entry.manifest] at hread
    split at hread
    next => cases hread
    next hrefused => cases hread; exact Manifest.showable_of_ofValue hs hrefused
    next => cases hread; exact List.forall_mem_nil _
  · rw [manifest_eq_ok_iff] at hm
    obtain ⟨hin, hout⟩ := Manifest.isJson_of_ofValue hj hm
    obtain ⟨hin', hout'⟩ := Manifest.showable_of_ofValue_eq_ok hs hm
    split at h
    next => cases h; exact List.forall_mem_nil _
    next => exact showable_of_register ⟨hin, hin'⟩ ⟨hout, hout'⟩ h

end

/-! ## Lists of entries -/

theorem Command.runTools_of_load [CharacterNames] {around : Surroundings} {source : String} {document : Value}
    {entries : List Value} {settings : Settings} (hd : load around source = .ok document)
    (he : toolEntries? document = some entries) (hs : Command.settings around = .ok settings) :
    runTools around source = prepared (registerAll (entries.map .data) settings) >>= fun tools =>
      .ok (.success (toString tools.length ++ " tool(s) registered\n" ++
        String.join (tools.map toolLine))) := by
  simp only [runTools, hd, he, hs, bind, Except.bind]
  rfl

/-- **A registration ends with a fault exactly at an unfit entry.** Whatever JSON data a list
    of entries holds and whatever the settings, it is registered, or refused with an error
    that names what is wrong, unless its entries are registered up to one that is unfit,
    behind the names registered before; then the fault of that entry ends the registration.
    So the command that lists the tools of a document ends well or with the message of the
    error, but for these faults. All integers of the data have at most `digitLimit` digits,
    so that a document can hold them and messages can show them, and then they can show all
    that they do; of longer ones no message could be made. -/
theorem registerAll_faults [CharacterNames] {entries : List Value} (hj : ∀ v ∈ entries, v.IsJson)
    (hshows : ∀ v ∈ entries, v.Showable) (settings : Settings) :
    (∀ f, registerAll (entries.map .data) settings = .error (.fault f) ↔
      ∃ before v after tools, entries = before ++ v :: after ∧
        registerAll (before.map .data) settings = .ok tools ∧
        EntryUnfit (tools.map Tool.name) before.length v f) ∧
    (∀ e, registerAll (entries.map .data) settings = .error e → ∀ x ∈ e.shown, x.Showable) ∧
    ∀ around source document, Command.load around source = .ok document → document.Showable →
      Command.toolEntries? document = some entries → Command.settings around = .ok settings →
      (∃ out, Command.runTools around source = .ok (.success out)) ∨
      (∃ message, Command.runTools around source = .error (.failure message)) ∨
      ∃ f, Command.runTools around source = .error (.faulted f) ∧
        registerAll (entries.map .data) settings = .error (.fault f) := by
  refine ⟨fun f => ?_, fun e h => ?_, fun around source document hload _ hentries hsettings => ?_⟩
  · unfold registerAll
    rw [registerFrom_eq_error_iff]
    constructor
    · rintro ⟨before, entry, after, tools, hsplit, hbefore, hentry⟩
      obtain ⟨before, rest, rfl, rfl, hrest⟩ := List.map_eq_append_iff.1 hsplit
      obtain ⟨v, after, rfl, rfl, rfl⟩ := List.map_eq_cons_iff.1 hrest
      rw [Nat.zero_add, List.length_map, registerEntry_eq_fault_iff (hj v (by simp))] at hentry
      exact ⟨before, v, after, tools, rfl, hbefore, hentry⟩
    · rintro ⟨before, v, after, tools, rfl, hbefore, hunfit⟩
      refine ⟨before.map .data, .data v, after.map .data, tools, by simp, hbefore, ?_⟩
      rw [Nat.zero_add, List.length_map, registerEntry_eq_fault_iff (hj v (by simp))]
      exact hunfit
  · obtain ⟨before, entry, after, tools, hsplit, -, hentry⟩ := registerFrom_eq_error_iff.1 h
    obtain ⟨v, hv, rfl⟩ := List.mem_map.1 (show entry ∈ entries.map Entry.data by simp [hsplit])
    exact showable_of_registerEntry (hj v hv) (hshows v hv) hentry
  · rw [Command.runTools_of_load hload hentries hsettings]
    cases registerAll (entries.map .data) settings with
    | ok tools => exact Or.inl ⟨_, rfl⟩
    | error e =>
      cases e with
      | fault f => exact Or.inr (Or.inr ⟨f, rfl, rfl⟩)
      | manifest e => exact Or.inr (Or.inl ⟨e.message, rfl⟩)
      | invalid e => exact Or.inr (Or.inl ⟨e.message, rfl⟩)
      | conversion e => exact Or.inr (Or.inl ⟨e.message, rfl⟩)

/-- A tool whose implementation has a text where its settings belong. -/
def textConfig : Value :=
  .object [(.text "name", .text "t"), (.text "description", .text "d"), (.text "schema", .object []),
    (.text "impl", .object [(.text "kind", .text "custom"), (.text "config", .text "rides.prices")])]

/-- A directory with a manifest that lists the tool `textConfig`. -/
def textConfigDesk : Command.Surroundings where
  file := fun _ => .text ("[\x7b\"name\": \"t\", \"description\": \"d\", \"schema\": \x7b\x7d, " ++
    "\"impl\": \x7b\"kind\": \"custom\", \"config\": \"rides.prices\"\x7d\x7d]")
  page := fun _ => ⟨404, ""⟩
  env := ⟨"", "", ""⟩
  config := .absent

theorem registerAll_faults_textConfig :
    registerAll ([textConfig].map .data) .default = .error (.fault .configWithoutNames) ∧
    Command.runTools textConfigDesk "tools.json" = .error (.faulted .configWithoutNames) := by
  have hd : Command.load textConfigDesk "tools.json" = .ok (.list [textConfig]) :=
    Command.load_of_json (by decide +kernel) (by decide +kernel) (by decide +kernel) rfl (by cbv)
  have hs : Command.settings textConfigDesk = .ok .default := by cbv
  have hj : ∀ v ∈ [textConfig], v.IsJson := by decide
  obtain ⟨hfault, -, hcommand⟩ := registerAll_faults hj (by decide) .default
  have hconfig : Manifest.ConfigUnfit
      [(.text "kind", .text "custom"), (.text "config", .text "rides.prices")] .configWithoutNames :=
    .unnamed rfl rfl fun fields h => by cases h
  have hunfit : EntryUnfit [] 0 textConfig .configWithoutNames :=
    .config rfl ⟨_, rfl, by decide⟩ ⟨_, rfl, by decide⟩ rfl rfl hconfig
  have hregister := (hfault _).2 ⟨[], textConfig, [], [], rfl, rfl, hunfit⟩
  refine ⟨hregister, ?_⟩
  rcases hcommand _ _ _ hd (by decide) rfl hs with ⟨out, h⟩ | ⟨message, h⟩ | ⟨f, h, hf⟩
  · rw [Command.runTools_of_load hd rfl hs, hregister] at h; cases h
  · rw [Command.runTools_of_load hd rfl hs, hregister] at h
    have hnone := congrArg Command.Outcome.fault (Except.error.inj h)
    cases hnone
  · rw [hregister] at hf
    cases hf
    exact h

end SchemaGuard
