/-
  SchemaGuard — a registration is that of its entries, one by one.

  * `Registers settings first values ms tools`: from the position `first` on, each value is
    read as a manifest and each manifest registers, both on their own, and no two manifests
    have one name;
  * `EntryRefused settings taken index v e`: behind entries with the names `taken`, `e` is the
    first thing that is wrong with the entry `v`.

  Main result: `registerAll_exact`. All entries are registered so, or the first one that is
  refused decides.
-/
import Mathlib
import SchemaGuard.Proofs.Tool.Guard
import SchemaGuard.Proofs.Tool.Registration

namespace SchemaGuard

open Validator

/-! ## Entries that are registered -/

/-- Values are read at their own positions and register on their own, under different names. -/
structure Registers [CharacterNames] (settings : Settings) (first : Nat) (values : List Value)
    (ms : List Manifest) (tools : List Tool) : Prop where
  read : List.Forall₂ (fun v m => Manifest.ofValue v.1 v.2 = .ok m) (values.zipIdx first) ms
  registered : List.Forall₂ (fun m t => register m settings = .ok t) ms tools
  distinct : (ms.map Manifest.name).Nodup

section
variable [CharacterNames] {settings : Settings} {first : Nat} {v : Value} {values : List Value} {m : Manifest}
  {ms : List Manifest} {t : Tool} {tools registered : List Tool}

theorem Registers.names_eq (h : Registers settings first values ms tools) :
    tools.map Tool.name = ms.map Manifest.name := by
  rw [← List.forall₂_eq_eq_eq, List.forall₂_map_left_iff, List.forall₂_map_right_iff]
  refine h.registered.flip.imp fun t m hm => ?_
  rw [Tool.name, (register_eq_ok_iff.1 hm).1]

theorem registers_nil_iff : Registers settings first [] ms tools ↔ ms = [] ∧ tools = [] := by
  constructor
  · rintro ⟨hread, hregistered, -⟩
    cases hread
    cases hregistered
    exact ⟨rfl, rfl⟩
  · rintro ⟨rfl, rfl⟩
    exact ⟨.nil, .nil, List.nodup_nil⟩

theorem registers_cons_iff : Registers settings first (v :: values) ms tools ↔
    ∃ m t ms' tools', ms = m :: ms' ∧ tools = t :: tools' ∧ Manifest.ofValue v first = .ok m ∧
      register m settings = .ok t ∧ m.name ∉ ms'.map Manifest.name ∧
      Registers settings (first + 1) values ms' tools' := by
  constructor
  · rintro ⟨hread, hregistered, hdistinct⟩
    rw [List.zipIdx_cons, List.forall₂_cons_left_iff] at hread
    obtain ⟨m, ms', hm, hread, rfl⟩ := hread
    obtain ⟨t, tools', ht, hrest, rfl⟩ := List.forall₂_cons_left_iff.1 hregistered
    obtain ⟨hfresh, hdistinct⟩ := List.nodup_cons.1 hdistinct
    exact ⟨m, t, ms', tools', rfl, rfl, hm, ht, hfresh, hread, hrest, hdistinct⟩
  · rintro ⟨m, t, ms', tools', rfl, rfl, hm, ht, hfresh, hread, hregistered, hdistinct⟩
    exact ⟨.cons hm hread, .cons ht hregistered, List.nodup_cons.2 ⟨hfresh, hdistinct⟩⟩

theorem registerEntry_eq_ok_iff : registerEntry settings registered first (.data v) = .ok t ↔
    ∃ m, Manifest.ofValue v first = .ok m ∧ m.name ∉ registered.map Tool.name ∧
      register m settings = .ok t := by
  unfold registerEntry
  simp only [bind_eq_ok_iff, manifest_eq_ok_iff]
  refine exists_congr fun m => and_congr_right fun _ => ?_
  split
  next htaken => exact iff_of_false nofun fun h => h.1 (any_name_iff.1 htaken)
  next hfresh => exact (and_iff_right (mt any_name_iff.2 hfresh)).symm

/-- A run gives, behind the tools registered before, those of its entries; none of them has the
    name of a tool before. -/
theorem registerFrom_eq_ok_iff : registerFrom settings first registered (values.map .data) = .ok tools ↔
    ∃ ms new, tools = registered ++ new ∧ Registers settings first values ms new ∧
      ∀ m ∈ ms, m.name ∉ registered.map Tool.name := by
  induction values generalizing first registered with
  | nil => simp [registerFrom, registers_nil_iff, eq_comm]
  | cons v values ih =>
    rw [List.map_cons, registerFrom_cons]
    simp only [bind_eq_ok_iff, registerEntry_eq_ok_iff, ih, registers_cons_iff]
    constructor
    · rintro ⟨t, ⟨m, hm, hfresh, ht⟩, ms, new, rfl, hrest, hlater⟩
      have hname : t.name = m.name := by rw [Tool.name, (register_eq_ok_iff.1 ht).1]
      simp only [List.map_append, List.mem_append, List.map_cons, List.map_nil, List.mem_singleton,
        hname, not_or] at hlater
      refine ⟨m :: ms, t :: new, by simp, ⟨m, t, ms, new, rfl, rfl, hm, ht, ?_, hrest⟩, ?_⟩
      · rintro hmem
        obtain ⟨m', hm', heq⟩ := List.mem_map.1 hmem
        exact (hlater m' hm').2 heq
      · exact List.forall_mem_cons.2 ⟨hfresh, fun m' hm' => (hlater m' hm').1⟩
    · rintro ⟨_, _, rfl, ⟨m, t, ms, new, rfl, rfl, hm, ht, hfresh, hrest⟩, hlater⟩
      have hname : t.name = m.name := by rw [Tool.name, (register_eq_ok_iff.1 ht).1]
      obtain ⟨hm', hms⟩ := List.forall_mem_cons.1 hlater
      refine ⟨t, ⟨m, hm, hm', ht⟩, ms, new, by simp, hrest, fun m' hmem => ?_⟩
      simp only [List.map_append, List.mem_append, List.map_cons, List.map_nil, List.mem_singleton,
        hname, not_or]
      exact ⟨hms m' hmem, fun heq => hfresh (heq ▸ List.mem_map_of_mem hmem)⟩

theorem registerAll_eq_ok_iff : registerAll (values.map .data) settings = .ok tools ↔
    ∃ ms, Registers settings 0 values ms tools := by
  unfold registerAll
  simp [registerFrom_eq_ok_iff]

end

/-! ## Entries that are refused -/

/-- A schema is refused at a pointer: its meta-schema does not admit it, or admits it, but it
    uses what cannot be compiled. -/
inductive SchemaRefused [CharacterNames] (s : Value) (mode : Closedness) (p : String) : RegisterFailure → Prop where
  | invalid {e} : checkSchema s p = .ok (.error e) → SchemaRefused s mode p (.invalid e)
  | unsupported {e} : checkSchema s p = .ok (.ok ()) → compile s mode p = .error (.refused e) →
      SchemaRefused s mode p (.conversion e)

/-- The first thing that is wrong with an entry: it cannot be read at its position; its name is
    taken; its input schema is refused; or this schema is well, and its output schema is
    refused. -/
inductive EntryRefused [CharacterNames] (settings : Settings) (taken : List String) (index : Nat) (v : Value) :
    RegisterFailure → Prop where
  | unread {e} : Manifest.ofValue v index = .error (.refused e) →
      EntryRefused settings taken index v (.manifest e)
  | taken {m} : Manifest.ofValue v index = .ok m → m.name ∈ taken →
      EntryRefused settings taken index v (.manifest ⟨.duplicateName m.name, "#/tools"⟩)
  | input {m e} : Manifest.ofValue v index = .ok m → m.name ∉ taken →
      SchemaRefused m.schema settings.input (m.pointer ++ "/schema") e →
      EntryRefused settings taken index v e
  | output {m V e} : Manifest.ofValue v index = .ok m → m.name ∉ taken →
      prepare m.schema settings.input (m.pointer ++ "/schema") (m.pointer ++ "/schema") = .ok V →
      m.schemaOut ≠ .null → SchemaRefused m.schemaOut settings.output (m.pointer ++ "/schemaOut") e →
      EntryRefused settings taken index v e

section
variable [CharacterNames] {settings : Settings} {e : RegisterFailure} (he : ∀ f, e ≠ .fault f)
include he

theorem prepare_eq_refusal_iff {s : Value} {mode : Closedness} {p : String} :
    prepare s mode p p = .error e ↔ SchemaRefused s mode p e := by
  constructor
  · intro h
    unfold prepare at h
    split at h
    next => cases h; exact absurd rfl (he _)
    next hchecked => cases h; exact .invalid hchecked
    next hchecked =>
      split at h
      next => cases h
      next hcompiled => cases h; exact .unsupported hchecked hcompiled
      next => cases h; exact absurd rfl (he _)
  · intro h
    cases h with
    | invalid hchecked => simp only [prepare, hchecked]
    | unsupported hchecked hcompiled => simp only [prepare, hchecked, hcompiled]

theorem register_eq_refusal_iff {m : Manifest} : register m settings = .error e ↔
    SchemaRefused m.schema settings.input (m.pointer ++ "/schema") e ∨
      ∃ V, prepare m.schema settings.input (m.pointer ++ "/schema") (m.pointer ++ "/schema") = .ok V ∧
        m.schemaOut ≠ .null ∧
        SchemaRefused m.schemaOut settings.output (m.pointer ++ "/schemaOut") e := by
  simp only [← prepare_eq_refusal_iff he]
  by_cases hnull : m.schemaOut = .null
  · rw [register_of_null hnull, bind_eq_error_iff]
    simp [hnull]
  · rw [register_of_not_null hnull, bind_eq_error_iff]
    refine or_congr_right (exists_congr fun V => and_congr_right fun _ => ?_)
    rw [bind_eq_error_iff, and_iff_right hnull]
    exact or_iff_left fun ⟨_, _, h⟩ => nomatch h

theorem registerEntry_eq_refusal_iff {registered : List Tool} {index : Nat} {v : Value} :
    registerEntry settings registered index (.data v) = .error e ↔
      EntryRefused settings (registered.map Tool.name) index v e := by
  unfold registerEntry
  rw [bind_eq_error_iff]
  constructor
  · rintro (hread | ⟨m, hm, h⟩)
    · simp only [Entry.manifest] at hread
      split at hread
      next => cases hread
      next hrefused => cases hread; exact .unread hrefused
      next => cases hread; exact absurd rfl (he _)
    · rw [manifest_eq_ok_iff] at hm
      split at h
      next htaken => cases h; exact .taken hm (any_name_iff.1 htaken)
      next hfresh =>
        rw [any_name_iff] at hfresh
        rcases (register_eq_refusal_iff he).1 h with hin | ⟨V, hV, hnull, hout⟩
        · exact .input hm hfresh hin
        · exact .output hm hfresh hV hnull hout
  · intro h
    cases h with
    | unread hrefused => exact Or.inl (by simp only [Entry.manifest, hrefused])
    | taken hm htaken =>
      exact Or.inr ⟨_, manifest_eq_ok_iff.2 hm, by rw [if_pos (any_name_iff.2 htaken)]⟩
    | input hm hfresh hin =>
      refine Or.inr ⟨_, manifest_eq_ok_iff.2 hm, ?_⟩
      rw [if_neg (mt any_name_iff.1 hfresh)]
      exact (register_eq_refusal_iff he).2 (Or.inl hin)
    | output hm hfresh hV hnull hout =>
      refine Or.inr ⟨_, manifest_eq_ok_iff.2 hm, ?_⟩
      rw [if_neg (mt any_name_iff.1 hfresh)]
      exact (register_eq_refusal_iff he).2 (Or.inr ⟨_, hV, hnull, hout⟩)

end

/-! ## Lists of entries -/

/-- **A registration is exact, and all or nothing.** A list of entries is registered exactly if
    each entry is read at its own position and registers on its own, under names that are all
    different; then the tools are those that the entries give on their own, under these names
    and in their order. An error that is no fault is that of the first entry that is refused:
    the first thing that is wrong with this entry, behind entries that are registered. What an
    entry is refused for when it is read is told at its own position. And what follows
    an entry that ends the registration changes nothing. -/
theorem registerAll_exact [CharacterNames] (values : List Value) (settings : Settings) :
    (∀ tools, registerAll (values.map .data) settings = .ok tools ↔
      ∃ ms, Registers settings 0 values ms tools ∧ tools.map Tool.name = ms.map Manifest.name) ∧
    (∀ e, (∀ f, e ≠ .fault f) → (registerAll (values.map .data) settings = .error e ↔
      ∃ before v after ms tools, values = before ++ v :: after ∧
        Registers settings 0 before ms tools ∧
        EntryRefused settings (ms.map Manifest.name) before.length v e)) ∧
    (∀ v (index : Nat) e, Manifest.ofValue v index = .error (.refused e) →
      ∃ part ∈ Manifest.checkedParts, e.path = "#/tools/" ++ toString index ++ part) ∧
    ∀ e after, registerAll (values.map .data) settings = .error e →
      registerAll ((values ++ after).map .data) settings = .error e := by
  refine ⟨fun tools => ?_, fun e he => ?_, fun v index e h => ?_, fun e after h => ?_⟩
  · rw [registerAll_eq_ok_iff]
    exact exists_congr fun ms => (and_iff_left_of_imp Registers.names_eq).symm
  · unfold registerAll
    rw [registerFrom_eq_error_iff]
    constructor
    · rintro ⟨before, entry, after, tools, hsplit, hbefore, hentry⟩
      obtain ⟨before, rest, rfl, rfl, hrest⟩ := List.map_eq_append_iff.1 hsplit
      obtain ⟨v, after, rfl, rfl, rfl⟩ := List.map_eq_cons_iff.1 hrest
      obtain ⟨ms, hms⟩ := registerAll_eq_ok_iff.1 hbefore
      rw [Nat.zero_add, List.length_map, registerEntry_eq_refusal_iff he, hms.names_eq] at hentry
      exact ⟨before, v, after, ms, tools, rfl, hms, hentry⟩
    · rintro ⟨before, v, after, ms, tools, rfl, hms, hrefused⟩
      refine ⟨before.map .data, .data v, after.map .data, tools, by simp,
        registerAll_eq_ok_iff.2 ⟨ms, hms⟩, ?_⟩
      rw [Nat.zero_add, List.length_map, registerEntry_eq_refusal_iff he, hms.names_eq]
      exact hrefused
  · have hindex : toString (index : Int) = toString index := rfl
    rw [← hindex]
    exact Manifest.path_of_ofValue h
  · unfold registerAll at h ⊢
    rw [List.map_append, registerFrom_append, h]
    rfl

/-- The entry of a lamp with an input schema. -/
def lampEntry (schema : Value) : Value :=
  .object [(.text "name", .text "lamp"), (.text "description", .text "Switches a lamp"),
    (.text "schema", schema)]

/-- Of two entries of one name and something that is no entry, the second decides, by its name
    and not by its schema. -/
theorem registerAll_exact_lamps :
    registerAll ([lampEntry switchSchema, lampEntry (.text "broken"), .null].map .data) .default =
      .error (.manifest ⟨.duplicateName "lamp", "#/tools"⟩) := by
  let m : Manifest := ⟨"lamp", "Switches a lamp", switchSchema, .null, .mock, [], .null⟩
  let broken : Manifest := { m with schema := .text "broken" }
  let t : Tool := ⟨m, .kind "#/tools/lamp/schema" "boolean", none⟩
  have hm : Manifest.ofValue (lampEntry switchSchema) 0 = .ok m := rfl
  have hbroken : Manifest.ofValue (lampEntry (.text "broken")) 1 = .ok broken := rfl
  have ht : register m .default = .ok t := by cbv
  have hfirst : Registers .default 0 [lampEntry switchSchema] [m] [t] :=
    ⟨.cons hm .nil, .cons ht .nil, List.nodup_singleton _⟩
  obtain ⟨-, hrefused, -, -⟩ :=
    registerAll_exact [lampEntry switchSchema, lampEntry (.text "broken"), .null] .default
  have hrefusal : ∀ f, RegisterFailure.manifest ⟨.duplicateName "lamp", "#/tools"⟩ ≠ .fault f := by
    intro f hf
    cases hf
  exact (hrefused _ hrefusal).2 ⟨_, _, _, _, _, rfl, hfirst, .taken hbroken (List.mem_singleton.2 rfl)⟩

end SchemaGuard
