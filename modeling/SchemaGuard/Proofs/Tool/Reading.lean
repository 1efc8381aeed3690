/-
  SchemaGuard — reading the entries of a manifest.

  `Manifest.ofValue` is a chain of checks: name, description, input schema, implementation
  (`ofValue_object`). An entry that is read has the schemas of its fields (`ofValue_eq_ok`);
  reading ends with a fault exactly where all checks up to the settings of the
  implementation succeed and these do not serve its kind (`ofValue_eq_fault_iff`). A refusal
  has the path of the entry, or of one of its checked parts (`path_of_ofValue`). It shows at
  most a part of the entry (`showable_of_ofValue`).
-/
import Mathlib
import SchemaGuard.Proofs.Validator.Asking
import SchemaGuard.Proofs.Value.Json
import SchemaGuard.Tool

namespace SchemaGuard

open Validator

/-- The data in the wording of a problem. -/
def ManifestProblem.shown : ManifestProblem → List Value
  | unknownKind value => [value]
  | _ => []

namespace Manifest

/-! ## Implementations -/

/-- The settings of an implementation that count: those given, none for vacant ones. -/
def config (impl : Fields) : Value :=
  if (impl.named "config").isVacant then .object [] else impl.named "config"

/-- The settings of an implementation do not serve its kind: they are no object, where the
    kind needs one of them, or no sequence of entries, where it needs none. -/
inductive ConfigUnfit (impl : Fields) : Fault → Prop where
  | unnamed {kind needed} : ImplKind.ofValue? (impl.named "kind") = some kind →
      kind.neededSetting? = some needed → (∀ fields, config impl ≠ .object fields) →
      ConfigUnfit impl .configWithoutNames
  | entries {kind f} : ImplKind.ofValue? (impl.named "kind") = some kind →
      kind.neededSetting? = none → configFields (config impl) = .error f → ConfigUnfit impl f

section
variable {impl : Fields} {path : String} {kind : ImplKind} {f : Fault}

theorem configUnfit_iff_of_needless (hkind : ImplKind.ofValue? (impl.named "kind") = some kind)
    (hn : kind.neededSetting? = none) :
    ConfigUnfit impl f ↔ configFields (config impl) = .error f := by
  refine ⟨fun h => ?_, .entries hkind hn⟩
  cases h with
  | entries _ _ h => exact h
  | unnamed h hneeded =>
    obtain rfl : kind = _ := Option.some.inj (hkind.symm.trans h)
    rw [hn] at hneeded
    cases hneeded

theorem configUnfit_iff_of_needing (hkind : ImplKind.ofValue? (impl.named "kind") = some kind)
    {needed : String × ManifestProblem} (hn : kind.neededSetting? = some needed) :
    ConfigUnfit impl f ↔ f = .configWithoutNames ∧ ∀ fields, config impl ≠ .object fields := by
  refine ⟨fun h => ?_, ?_⟩
  · cases h with
    | unnamed _ _ h => exact ⟨rfl, h⟩
    | entries h hneedless =>
      obtain rfl : kind = _ := Option.some.inj (hkind.symm.trans h)
      rw [hn] at hneedless
      cases hneedless
  · rintro ⟨rfl, h⟩
    exact .unnamed hkind hn h

theorem implementation_of_kind (hkind : ImplKind.ofValue? (impl.named "kind") = some kind) :
    implementation impl path =
      (match kind.neededSetting? with
        | none => .ok ()
        | some (setting, problem) =>
          match config impl with
          | .object fields =>
            if (Fields.named fields setting).isVacant then refuse problem (path ++ "/config") else .ok ()
          | _ => .error (.fault .configWithoutNames)) >>= fun _ =>
        match configFields (config impl) with
        | .ok fields => .ok (kind, fields)
        | .error f => .error (.fault f) := by
  simp only [implementation, hkind]
  cases hn : kind.neededSetting? with
  | none => rfl
  | some needed =>
    obtain ⟨setting, problem⟩ := needed
    simp only [config]
    generalize (if (impl.named "config").isVacant then _ else _ : Value) = config
    cases config with
    | object fields => dsimp only; split <;> rfl
    | _ => rfl

theorem implementation_eq_fault_iff :
    implementation impl path = .error (.fault f) ↔ ConfigUnfit impl f := by
  cases hkind : ImplKind.ofValue? (impl.named "kind") with
  | none =>
    constructor
    · intro h
      simp only [implementation, hkind] at h
      cases h
    · intro h
      cases h with
      | unnamed h => rw [hkind] at h; cases h
      | entries h => rw [hkind] at h; cases h
  | some kind =>
    rw [implementation_of_kind hkind]
    cases hn : kind.neededSetting? with
    | none =>
      rw [configUnfit_iff_of_needless hkind hn]
      change (match configFields (config impl) with | .ok _ => _ | .error _ => _) = _ ↔ _
      cases configFields (config impl) <;> simp
    | some needed =>
      rw [configUnfit_iff_of_needing hkind hn]
      cases config impl with
      | object fields =>
        -- the settings of an object are its fields, so this ends in a refusal or well
        refine iff_of_false (fun h => ?_) fun h => h.2 fields rfl
        dsimp only at h
        split at h <;> cases h
      | _ => simp [bind, Except.bind, eq_comm]

end

/-! ## Entries -/

/-- A text with at least one character. -/
def IsFilled (v : Value) : Prop := ∃ s, v = .text s ∧ s.isEmpty = false

/-- What an entry says about its implementation. -/
def readImplementation (impl : Value) (path : String) : Except ManifestFailure (ImplKind × Fields) :=
  if impl.isVacant then .ok (.mock, [])
  else
    match impl with
    | .object impl => implementation impl path
    | _ => refuse .implNotObject path

section
variable {v : Value} {fields : Fields} {problem : ManifestProblem} {path : String} {index : Int}
  {f : Fault}

theorem filledText_bind_eq_fault_iff {β : Type} {k : String → Except ManifestFailure β} :
    filledText v problem path >>= k = .error (.fault f) ↔
      ∃ s, v = .text s ∧ s.isEmpty = false ∧ k s = .error (.fault f) := by
  constructor
  · intro h
    obtain hread | ⟨s, hread, hk⟩ := bind_eq_error_iff.1 h
    · unfold filledText at hread
      split at hread
      next => split at hread <;> cases hread
      next => cases hread
    · unfold filledText at hread
      split at hread
      next s' =>
        by_cases hs : s'.isEmpty
        · rw [if_pos hs] at hread; cases hread
        · rw [if_neg hs] at hread
          cases hread
          exact ⟨s, rfl, by simpa using hs, hk⟩
      next => cases hread
  · rintro ⟨s, rfl, hs, hk⟩
    simp only [filledText, hs, Bool.false_eq_true, if_false]
    exact hk

theorem ofValue_object : ofValue (.object fields) index =
    filledText (fields.named "name") .name ("#/tools/" ++ toString index ++ "/name") >>= fun name =>
    filledText (fields.named "description") .description
      ("#/tools/" ++ toString index ++ "/description") >>= fun description =>
    match fields.named? "schema" with
    | none => refuse .schemaMissing ("#/tools/" ++ toString index ++ "/schema")
    | some schema =>
      readImplementation (fields.named "impl") ("#/tools/" ++ toString index ++ "/impl") >>= fun impl =>
        .ok { name, description, schema, schemaOut := fields.named "schemaOut",
              implKind := impl.1, implConfig := impl.2, category := fields.named "category" } := by
  simp only [ofValue]
  refine congrArg _ (funext fun name => congrArg _ (funext fun description => ?_))
  cases fields.named? "schema" with
  | none => rfl
  | some schema =>
    simp only [readImplementation]
    split
    next => rfl
    next => cases fields.named "impl" <;> rfl

/-- The schemas of an entry that is read are those of its fields. -/
theorem ofValue_eq_ok {m : Manifest} (h : ofValue v index = .ok m) : ∃ fields : Fields,
    v = .object fields ∧ fields.named? "schema" = some m.schema ∧
      fields.named "schemaOut" = m.schemaOut := by
  cases v with
  | object fields =>
    rw [ofValue_object] at h
    obtain ⟨name, -, h⟩ := bind_eq_ok_iff.1 h
    obtain ⟨description, -, h⟩ := bind_eq_ok_iff.1 h
    cases hs : Fields.named? fields "schema" with
    | none => rw [hs] at h; cases h
    | some schema =>
      rw [hs] at h
      obtain ⟨impl, -, h⟩ := bind_eq_ok_iff.1 h
      cases h
      exact ⟨fields, rfl, hs, rfl⟩
  | _ => cases h

theorem readImplementation_eq_fault_iff {impl : Value} :
    readImplementation impl path = .error (.fault f) ↔
      ∃ impl' : Fields, impl = .object impl' ∧ ConfigUnfit impl' f := by
  constructor
  · intro h
    unfold readImplementation at h
    split at h
    next => cases h
    next =>
      cases impl with
      | object impl => exact ⟨impl, rfl, implementation_eq_fault_iff.1 h⟩
      | _ => cases h
  · rintro ⟨impl, rfl, hunfit⟩
    have hfull : Value.isVacant (.object impl) = false := by
      cases impl with
      | cons field fields => rfl
      | nil =>
        -- an object without fields names no kind
        cases hunfit with
        | unnamed h => cases h
        | entries h => cases h
    simp only [readImplementation, hfull, Bool.false_eq_true, if_false]
    exact implementation_eq_fault_iff.2 hunfit

/-- Reading an entry ends with a fault exactly if it is right up to its implementation,
    whose settings do not serve its kind. -/
theorem ofValue_eq_fault_iff : ofValue v index = .error (.fault f) ↔
    ∃ (fields impl : Fields), v = .object fields ∧ IsFilled (fields.named "name") ∧
      IsFilled (fields.named "description") ∧ fields.has "schema" ∧
      fields.named "impl" = .object impl ∧ ConfigUnfit impl f := by
  constructor
  · intro h
    cases v with
    | object fields =>
      rw [ofValue_object, filledText_bind_eq_fault_iff] at h
      obtain ⟨name, hname, hfull, h⟩ := h
      obtain ⟨description, hdescription, hfull', h⟩ := filledText_bind_eq_fault_iff.1 h
      cases hs : Fields.named? fields "schema" with
      | none => rw [hs] at h; cases h
      | some schema =>
        rw [hs] at h
        obtain himpl | ⟨impl, -, h⟩ := bind_eq_error_iff.1 h
        · obtain ⟨impl, himpl, hunfit⟩ := readImplementation_eq_fault_iff.1 himpl
          have hschema : Fields.has fields "schema" := Option.isSome_iff_exists.2 ⟨schema, hs⟩
          exact ⟨fields, impl, rfl, ⟨name, hname, hfull⟩, ⟨description, hdescription, hfull'⟩, hschema,
            himpl, hunfit⟩
        · cases h
    | _ => cases h
  · rintro ⟨fields, impl, rfl, hname, hdescription, hs, himpl, hunfit⟩
    obtain ⟨name, hname, hfull⟩ := hname
    obtain ⟨description, hdescription, hfull'⟩ := hdescription
    obtain ⟨schema, hschema⟩ := Option.isSome_iff_exists.1 hs
    have hread : readImplementation (fields.named "impl") ("#/tools/" ++ toString index ++ "/impl") =
        .error (.fault f) := readImplementation_eq_fault_iff.2 ⟨impl, himpl, hunfit⟩
    rw [ofValue_object, filledText_bind_eq_fault_iff]
    refine ⟨name, hname, hfull, filledText_bind_eq_fault_iff.2 ⟨description, hdescription, hfull', ?_⟩⟩
    rw [hschema]
    exact bind_eq_error_iff.2 (Or.inl hread)

/-! ## Places of refusals -/

/-- The parts of an entry that are checked, by the ends of their pointers. -/
def checkedParts : List String :=
  ["", "/name", "/description", "/schema", "/impl", "/impl/kind", "/impl/config"]

variable {e : ManifestError}

theorem path_of_filledText {p : ManifestProblem} (h : filledText v p path = .error (.refused e)) :
    e.path = path := by
  unfold filledText at h
  split at h
  next => split at h <;> cases h; rfl
  next => cases h; rfl

theorem path_of_implementation {impl : Fields} (h : implementation impl path = .error (.refused e)) :
    e.path = path ++ "/kind" ∨ e.path = path ++ "/config" := by
  cases hkind : ImplKind.ofValue? (impl.named "kind") with
  | none => simp only [implementation, hkind] at h; cases h; exact Or.inl rfl
  | some kind =>
    rw [implementation_of_kind hkind, bind_eq_error_iff] at h
    obtain h | ⟨_, -, h⟩ := h
    · split at h
      next => cases h
      next =>
        split at h
        next => split at h <;> cases h; exact Or.inr rfl
        next => cases h
    · split at h <;> cases h

theorem path_of_readImplementation {impl : Value}
    (h : readImplementation impl path = .error (.refused e)) :
    e.path = path ∨ e.path = path ++ "/kind" ∨ e.path = path ++ "/config" := by
  unfold readImplementation at h
  split at h
  next => cases h
  next =>
    cases impl with
    | object impl => exact Or.inr (path_of_implementation h)
    | _ => cases h; exact Or.inl rfl

/-- An entry that is refused is refused at its own position, or at one of its parts. -/
theorem path_of_ofValue (h : ofValue v index = .error (.refused e)) :
    ∃ part ∈ checkedParts, e.path = "#/tools/" ++ toString index ++ part := by
  cases v with
  | object fields =>
    rw [ofValue_object] at h
    obtain h | ⟨name, -, h⟩ := bind_eq_error_iff.1 h
    · exact ⟨"/name", by simp [checkedParts], path_of_filledText h⟩
    obtain h | ⟨description, -, h⟩ := bind_eq_error_iff.1 h
    · exact ⟨"/description", by simp [checkedParts], path_of_filledText h⟩
    split at h
    next => cases h; exact ⟨"/schema", by simp [checkedParts], rfl⟩
    next =>
      obtain h | ⟨_, -, h⟩ := bind_eq_error_iff.1 h
      · obtain hpath | hpath | hpath := path_of_readImplementation h
        · exact ⟨"/impl", by simp [checkedParts], hpath⟩
        · exact ⟨"/impl/kind", by simp [checkedParts], by rw [hpath, String.append_assoc]; rfl⟩
        · exact ⟨"/impl/config", by simp [checkedParts], by rw [hpath, String.append_assoc]; rfl⟩
      · cases h
  | _ => cases h; exact ⟨"", by simp [checkedParts], String.append_empty.symm⟩

/-! ## Data in refusals -/

theorem problem_of_filledText {p : ManifestProblem} (h : filledText v p path = .error (.refused e)) :
    e.problem = p := by
  unfold filledText at h
  split at h
  next => split at h <;> cases h; rfl
  next => cases h; rfl

/-- A refused implementation shows its kind, or nothing. -/
theorem shown_of_implementation {impl : Fields} (h : implementation impl path = .error (.refused e)) :
    ∀ x ∈ e.problem.shown, x = impl.named "kind" := by
  cases hkind : ImplKind.ofValue? (impl.named "kind") with
  | none =>
    simp only [implementation, hkind] at h
    cases h
    exact List.forall_mem_singleton.2 rfl
  | some kind =>
    rw [implementation_of_kind hkind, bind_eq_error_iff] at h
    obtain h | ⟨_, -, h⟩ := h
    · split at h
      next => cases h
      next hneeded =>
        split at h
        next =>
          split at h <;> cases h
          cases kind <;> cases hneeded <;> exact List.forall_mem_nil _
        next => cases h
    · split at h <;> cases h

/-- An entry that can be shown is refused with a message that can be made. -/
theorem showable_of_ofValue (hv : v.Showable) (h : ofValue v index = .error (.refused e)) :
    ∀ x ∈ e.problem.shown, x.Showable := by
  cases v with
  | object fields =>
    rw [ofValue_object] at h
    obtain h | ⟨name, -, h⟩ := bind_eq_error_iff.1 h
    · rw [problem_of_filledText h]; exact List.forall_mem_nil _
    obtain h | ⟨description, -, h⟩ := bind_eq_error_iff.1 h
    · rw [problem_of_filledText h]; exact List.forall_mem_nil _
    split at h
    next => cases h; exact List.forall_mem_nil _
    next =>
      obtain h | ⟨_, -, h⟩ := bind_eq_error_iff.1 h
      · unfold readImplementation at h
        split at h
        next => cases h
        next =>
          split at h
          next impl himpl =>
            intro x hx
            rw [shown_of_implementation h x hx]
            exact (himpl ▸ hv.named "impl" : Value.Showable (.object impl)).named "kind"
          next => cases h; exact List.forall_mem_nil _
      · cases h
  | _ => cases h; exact List.forall_mem_nil _

end

end Manifest

end SchemaGuard
