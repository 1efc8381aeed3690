/-
  SchemaGuard — what the pointers of different tools have in common.

  The name of a tool stands in the pointers of its nodes as it is, with its slashes, while
  the names of properties are escaped. So one name can go on like a pointer of another tool:

  * `Continues name longer`: `longer` is `name`, a trail through one of the schemas of a tool
    with this name, and `properties`.

  Main result: `registerAll_pointers`. Where no name continues another, pointers tell the
  tool and its schema; where one does, the two tools can have a pointer in common.
-/
import Mathlib
import SchemaGuard.Proofs.Compile.Trails
import SchemaGuard.Proofs.Tool.Listing

namespace SchemaGuard

open Validator

/-! ## The validators of a tool -/

/-- The two validators of a tool. -/
inductive Side where
  | input
  | output
deriving DecidableEq, Repr

namespace Side

/-- The name of the schema in the manifest. -/
def part : Side → String
  | input => "schema"
  | output => "schemaOut"

variable {a b : Side}

theorem part_injective : Function.Injective part := by
  intro a b h
  cases a <;> cases b <;> first | rfl | exact absurd h (by decide)

theorem escape_part (a : Side) : Pointer.escape a.part = a.part := by cases a <;> decide

theorem part_notMem (a : Side) : a.part ∉ "items" :: "properties" :: listKeywords := by
  cases a <;> decide

theorem part_ne_toString (a : Side) (i : Nat) : a.part ≠ toString i := by
  intro h
  have hletter : 's' ∈ a.part.toList := by cases a <;> decide
  rw [h] at hletter
  exact absurd (Pointer.isDigit_of_mem_toString hletter) (by decide)

end Side

/-- The validator on a side, if there is one. -/
def Tool.validator? (t : Tool) : Side → Option Validator
  | .input => some t.input
  | .output => t.output

/-- A node of the validator on a side. -/
def Tool.HasNode (t : Tool) (a : Side) (W : Validator) : Prop :=
  ∃ V, t.validator? a = some V ∧ W ∈ V.nodes

/-- An issue, at any depth, of a verdict of the validator on a side. -/
def Tool.HasIssue (t : Tool) (a : Side) (i : Issue) : Prop :=
  ∃ V v verdict, t.validator? a = some V ∧ V.run v = .ok verdict ∧ i ∈ Issue.allOf verdict.issues

/-! ## Names that continue names -/

/-- A name goes on behind another one like the pointer of the properties of an object schema. -/
def Continues (name longer : String) : Prop :=
  ∃ (a : Side) (tokens : List String), Trail tokens ∧
    longer = name ++ Pointer.ofTokens (a.part :: (tokens ++ ["properties"]))

theorem Continues.slash_mem {name longer : String} (h : Continues name longer) : '/' ∈ longer.toList := by
  obtain ⟨a, tokens, -, rfl⟩ := h
  rw [String.toList_append, Pointer.toList_ofTokens]
  simp

/-- No name continues itself. -/
theorem Continues.ne {name longer : String} (h : Continues name longer) : name ≠ longer := by
  obtain ⟨a, tokens, -, rfl⟩ := h
  intro heq
  have hlength := congrArg (fun text => text.toList.length) heq
  simp [Pointer.toList_ofTokens] at hlength

/-- One of two names continues the other. -/
def Nested (name name' : String) : Prop := Continues name name' ∨ Continues name' name

section
variable {name name' text : String} {a a' : Side} {tokens tokens' : List String}

theorem continues_of_append (htokens : Trail tokens)
    (h : Pointer.ofTokens (a.part :: tokens) = text ++ Pointer.ofTokens (a'.part :: tokens')) :
    text = "" ∧ a = a' ∨ Continues name (name ++ text) := by
  obtain ⟨before, rfl, hsplit⟩ := Pointer.exists_of_ofTokens_eq_append h
  cases before with
  | nil => exact Or.inl ⟨rfl, Side.part_injective (List.cons.inj hsplit).1⟩
  | cons token before =>
    obtain ⟨rfl, rfl⟩ := List.cons.inj hsplit
    obtain ⟨inner, hinner, rfl⟩ := htokens.of_append_cons a'.part_notMem a'.part_ne_toString
    exact Or.inr ⟨a, inner, hinner, rfl⟩

theorem Nested.ne (h : Nested name name') : name ≠ name' := h.elim Continues.ne fun h => h.ne.symm

/-- Of two beginnings of one text, one goes on where the other ends. -/
theorem exists_of_append_eq_append {front back front' back' : String} (h : front ++ back = front' ++ back') :
    (∃ text, front' = front ++ text ∧ back = text ++ back') ∨
      ∃ text, front = front' ++ text ∧ back' = text ++ back := by
  have hchars := congrArg String.toList h
  rw [String.toList_append, String.toList_append] at hchars
  rcases List.append_eq_append_iff.1 hchars with ⟨cs, hfront, hback⟩ | ⟨cs, hfront, hback⟩
  · exact Or.inl ⟨String.ofList cs, String.toList_inj.1 (by simpa using hfront),
      String.toList_inj.1 (by simpa using hback)⟩
  · exact Or.inr ⟨String.ofList cs, String.toList_inj.1 (by simpa using hfront),
      String.toList_inj.1 (by simpa using hback)⟩

/-- Where two names with trails behind them are one text, they are one name or one of them
    continues the other. -/
theorem continues_of_eq (htokens : Trail tokens) (htokens' : Trail tokens')
    (h : name ++ Pointer.ofTokens (a.part :: tokens) = name' ++ Pointer.ofTokens (a'.part :: tokens')) :
    name = name' ∧ a = a' ∨ Nested name name' := by
  rcases exists_of_append_eq_append h with ⟨text, rfl, htext⟩ | ⟨text, rfl, htext⟩
  · rcases continues_of_append htokens htext with ⟨rfl, rfl⟩ | hcontinues
    · exact Or.inl ⟨String.append_empty.symm, rfl⟩
    · exact Or.inr (Or.inl hcontinues)
  · rcases continues_of_append htokens' htext with ⟨rfl, rfl⟩ | hcontinues
    · exact Or.inl ⟨String.append_empty, rfl⟩
    · exact Or.inr (Or.inr hcontinues)

end

/-! ## Pointers of registered tools -/

section
variable {m : Manifest} {settings : Settings} {t : Tool} {a : Side} {V W : Validator}

theorem register_compiled [CharacterNames] (h : register m settings = .ok t) (hV : t.validator? a = some V) :
    ∃ s mode, compile s mode ("#/tools/" ++ t.name ++ "/" ++ a.part) = .ok V ∧
      (m.schema.IsJson → m.schemaOut.IsJson → s.IsJson) := by
  obtain ⟨hmanifest, hin, hout⟩ := register_eq_ok_iff.1 h
  have hpointer : "#/tools/" ++ t.name = m.pointer := by rw [Tool.name, hmanifest, Manifest.pointer]
  have hslashed : ∀ keyword, m.pointer ++ "/" ++ keyword = m.pointer ++ ("/" ++ keyword) :=
    fun keyword => String.append_assoc
  rw [hpointer, hslashed]
  cases a with
  | input =>
    cases hV
    exact ⟨m.schema, settings.input, (prepare_eq_ok hin).2, fun hs _ => hs⟩
  | output =>
    rw [Tool.validator?] at hV
    rw [hV] at hout
    exact ⟨m.schemaOut, settings.output, (prepare_eq_ok hout.2).2, fun _ hs => hs⟩

/-- The pointer of a node is made of the name of the tool, the part of the manifest and a trail. -/
theorem pointer_of_register [CharacterNames] (h : register m settings = .ok t) (hW : t.HasNode a W) :
    ∃ tokens, Trail tokens ∧
      W.pointer = "#/tools/" ++ (t.name ++ Pointer.ofTokens (a.part :: tokens)) := by
  obtain ⟨V, hV, hW⟩ := hW
  obtain ⟨s, mode, hcompiled, -⟩ := register_compiled h hV
  obtain ⟨tokens, htokens, hpointer⟩ := onTrail_compile hcompiled W hW
  refine ⟨tokens, htokens, ?_⟩
  rw [hpointer, Pointer.append_ofTokens_cons, Pointer.child_eq a.escape_part]
  simp only [String.append_assoc]

/-- An issue has the pointer of a node. -/
theorem exists_node_of_issue [CharacterNames] (h : register m settings = .ok t) (hs : m.schema.IsJson)
    (hout : m.schemaOut.IsJson) {i : Issue} (hi : t.HasIssue a i) :
    ∃ W, t.HasNode a W ∧ W.pointer = i.pointer := by
  obtain ⟨V, v, verdict, hV, hrun, hi⟩ := hi
  obtain ⟨s, mode, hcompiled, hjson⟩ := register_compiled h hV
  have hd := distinctNames_compile (hjson hs hout) hcompiled
  obtain ⟨o, hcheck⟩ := exists_check_of_run hrun
  obtain ⟨W, hW, hpointer, -⟩ := (reports_of_check hd hcheck).exists_reporter i hi
  exact ⟨W, ⟨V, hV, (mem_reporters_iff.1 hW).1⟩, hpointer⟩

end

/-- **Pointers tell tools apart, where no name continues another.** Let a list of entries be
    registered. If two nodes of its tools have one pointer, they belong to the same
    validator of the same tool, or to two tools of which the name of one continues that of the
    other; likewise two issues of verdicts, at any depth. A name that continues another has a
    slash, so where names have none, a pointer tells the tool and whether its input or its
    output schema rejected the value. -/
theorem registerAll_pointers [CharacterNames] {values : List Value} {settings : Settings} {tools : List Tool}
    (h : registerAll (values.map .data) settings = .ok tools) :
    (∀ t ∈ tools, ∀ t' ∈ tools, ∀ a a' W W', t.HasNode a W → t'.HasNode a' W' → W.pointer = W'.pointer →
      t = t' ∧ a = a' ∨ t ≠ t' ∧ Nested t.name t'.name) ∧
    ((∀ v ∈ values, v.IsJson) → ∀ t ∈ tools, ∀ t' ∈ tools, ∀ a a' i i', t.HasIssue a i → t'.HasIssue a' i' →
      i.pointer = i'.pointer → t = t' ∧ a = a' ∨ t ≠ t' ∧ Nested t.name t'.name) ∧
    ∀ t ∈ tools, ∀ t' ∈ tools, Nested t.name t'.name → '/' ∈ t.name.toList ∨ '/' ∈ t'.name.toList := by
  obtain ⟨ms, hms⟩ := registerAll_eq_ok_iff.1 h
  have hregister : ∀ t ∈ tools, ∃ m, m ∈ ms ∧ register m settings = .ok t := fun t ht =>
    forall₂_left hms.registered.flip ht
  have hnames : (tools.map Tool.name).Nodup := hms.names_eq ▸ hms.distinct
  have hnodes : ∀ t ∈ tools, ∀ t' ∈ tools, ∀ a a' W W', t.HasNode a W → t'.HasNode a' W' →
      W.pointer = W'.pointer → t = t' ∧ a = a' ∨ t ≠ t' ∧ Nested t.name t'.name := by
    intro t ht t' ht' a a' W W' hW hW' hpointer
    obtain ⟨m, -, hm⟩ := hregister t ht
    obtain ⟨m', -, hm'⟩ := hregister t' ht'
    obtain ⟨tokens, htokens, hp⟩ := pointer_of_register hm hW
    obtain ⟨tokens', htokens', hp'⟩ := pointer_of_register hm' hW'
    have htexts : t.name ++ Pointer.ofTokens (a.part :: tokens) =
        t'.name ++ Pointer.ofTokens (a'.part :: tokens') := by
      rw [hp, hp'] at hpointer
      simpa using hpointer
    rcases continues_of_eq htokens htokens' htexts with ⟨hname, hside⟩ | hnested
    · exact Or.inl ⟨List.inj_on_of_nodup_map hnames ht ht' hname, hside⟩
    · exact Or.inr ⟨fun heq => hnested.ne (congrArg Tool.name heq), hnested⟩
  refine ⟨hnodes, fun hjson t ht t' ht' a a' i i' hi hi' hpointer => ?_, fun t _ t' _ hnested => ?_⟩
  · have hnode : ∀ t ∈ tools, ∀ a i, t.HasIssue a i → ∃ W, t.HasNode a W ∧ W.pointer = i.pointer := by
      intro t ht a i hi
      obtain ⟨m, hmem, hm⟩ := hregister t ht
      obtain ⟨v, hv, hread⟩ := forall₂_left hms.read.flip hmem
      obtain ⟨hs, hout⟩ := Manifest.isJson_of_ofValue (hjson v.1 (List.fst_mem_of_mem_zipIdx hv)) hread
      exact exists_node_of_issue hm hs hout hi
    obtain ⟨W, hW, hp⟩ := hnode t ht a i hi
    obtain ⟨W', hW', hp'⟩ := hnode t' ht' a' i' hi'
    exact hnodes t ht t' ht' a a' W W' hW hW' (by rw [hp, hp', hpointer])
  · exact hnested.elim (fun h => Or.inr h.slash_mem) fun h => Or.inl h.slash_mem

/-- The entry of a tool with a name and an input schema. -/
def namedEntry (name : String) (schema : Value) : Value :=
  .object [(.text "name", .text name), (.text "description", .text "d"), (.text "schema", schema)]

/-- Two tools with a common pointer: the name of the second goes on like a pointer of the first. -/
theorem registerAll_pointers_nested : ∃ t t' W W',
    registerAll ([namedEntry "a" (.object [(.text "type", .text "object"), (.text "properties",
        .object [(.text "schema", .object [(.text "type", .text "string")])])]),
      namedEntry "a/schema/properties" (.object [(.text "type", .text "string")])].map .data) .default =
      .ok [t, t'] ∧
    t ≠ t' ∧ t.HasNode .input W ∧ t'.HasNode .input W' ∧ W.pointer = "#/tools/a/schema/properties/schema" ∧
    W'.pointer = W.pointer ∧ Nested "a" "a/schema/properties" := by
  let text : Value := .object [(.text "type", .text "string")]
  let record : Value := .object [(.text "type", .text "object"),
    (.text "properties", .object [(.text "schema", text)])]
  let W : Validator := .text "#/tools/a/schema/properties/schema" ⟨none, none, none, none, false⟩
  let m : Manifest := ⟨"a", "d", record, .null, .mock, [], .null⟩
  let m' : Manifest := ⟨"a/schema/properties", "d", text, .null, .mock, [], .null⟩
  let t : Tool := ⟨m, .object "#/tools/a/schema" [("schema", W)] [] .strict, none⟩
  let t' : Tool := ⟨m', W, none⟩
  have hm : Manifest.ofValue (namedEntry "a" record) 0 = .ok m := rfl
  have hm' : Manifest.ofValue (namedEntry "a/schema/properties" text) 1 = .ok m' := rfl
  have hregister : register m .default = .ok t := by cbv
  have hregister' : register m' .default = .ok t' := by cbv
  have ht : registerAll ([namedEntry "a" record, namedEntry "a/schema/properties" text].map .data) .default =
      .ok [t, t'] :=
    registerAll_eq_ok_iff.2 ⟨[m, m'], .cons hm (.cons hm' .nil),
      .cons hregister (.cons hregister' .nil), by decide⟩
  have hW : t.HasNode .input W :=
    ⟨t.input, rfl, mem_nodes_iff.2 (Or.inr ⟨W, List.mem_singleton.2 rfl, self_mem_nodes W⟩)⟩
  have hW' : t'.HasNode .input W := ⟨W, rfl, self_mem_nodes W⟩
  have hne : t ≠ t' := fun h => absurd (congrArg Tool.name h) (by decide)
  obtain ⟨hnodes, -, -⟩ := registerAll_pointers ht
  refine ⟨t, t', W, W, ht, hne, hW, hW', rfl, rfl, ?_⟩
  exact ((hnodes t (by simp) t' (by simp) _ _ W W hW hW' rfl).resolve_left fun h => hne h.1).2

end SchemaGuard
