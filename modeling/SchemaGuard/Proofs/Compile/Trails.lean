/-
  SchemaGuard — the tokens of compiled nodes.

  * `Trail tokens`: tokens by which a schema is entered, through its properties, its
    items and the lists of its parts;
  * `onTrail_compile`: the pointer of every node of a tree compiled at `p`, also of the
    nodes that report nothing, is `p` with such tokens behind it.

  Keywords and positions are few; any other token on a trail is the name of a property, and
  the token before it is `properties` (`Trail.of_append_cons`).
-/
import SchemaGuard.Proofs.Compile.Addresses

namespace SchemaGuard

open Validator

/-! ## Trails -/

/-- The keywords behind which there is a list of parts. -/
def listKeywords : List String := ["anyOf", "oneOf", "allOf", "type", "enum"]

/-- Tokens by which a schema is entered. -/
inductive Trail : List String → Prop where
  | root : Trail []
  | listed {keyword : String} (hk : keyword ∈ listKeywords) : Trail [keyword]
  | place {keyword : String} {tokens : List String} (hk : keyword ∈ listKeywords) (i : Nat)
      (h : Trail tokens) : Trail (keyword :: toString i :: tokens)
  | items {tokens : List String} (h : Trail tokens) : Trail ("items" :: tokens)
  | property {tokens : List String} (name : String) (h : Trail tokens) :
      Trail ("properties" :: name :: tokens)

/-- A token that is neither a keyword nor a position is the name of a property. -/
theorem Trail.of_append_cons {before after : List String} {token : String}
    (h : Trail (before ++ token :: after))
    (hkeyword : token ∉ "items" :: "properties" :: listKeywords) (hindex : ∀ i : Nat, token ≠ toString i) :
    ∃ tokens, Trail tokens ∧ before = tokens ++ ["properties"] := by
  simp only [List.mem_cons, not_or] at hkeyword
  obtain ⟨hitems, hproperties, hlist⟩ := hkeyword
  generalize htokens : before ++ token :: after = tokens at h
  induction h generalizing before with
  | root => exact absurd htokens (by simp)
  | listed hk =>
    match before with
    | [] => exact absurd ((List.cons.inj htokens).1 ▸ hk) hlist
    | _ :: _ => exact absurd (List.cons.inj htokens).2 (by simp)
  | @place keyword tokens hk i h ih =>
    match before with
    | [] => exact absurd ((List.cons.inj htokens).1 ▸ hk) hlist
    | [_] => exact absurd (List.cons.inj (List.cons.inj htokens).2).1 (hindex i)
    | first :: second :: before =>
      obtain ⟨rfl, hbehind⟩ := List.cons.inj htokens
      obtain ⟨rfl, hrest⟩ := List.cons.inj hbehind
      obtain ⟨inner, hinner, rfl⟩ := ih hrest
      exact ⟨first :: toString i :: inner, .place hk i hinner, rfl⟩
  | @items tokens h ih =>
    match before with
    | [] => exact absurd (List.cons.inj htokens).1 hitems
    | _ :: before =>
      obtain ⟨rfl, hrest⟩ := List.cons.inj htokens
      obtain ⟨inner, hinner, rfl⟩ := ih hrest
      exact ⟨"items" :: inner, .items hinner, rfl⟩
  | @property tokens name h ih =>
    match before with
    | [] => exact absurd (List.cons.inj htokens).1 hproperties
    | [_] =>
      obtain ⟨rfl, -⟩ := List.cons.inj htokens
      exact ⟨[], .root, rfl⟩
    | _ :: name :: before =>
      obtain ⟨rfl, hbehind⟩ := List.cons.inj htokens
      obtain ⟨rfl, hrest⟩ := List.cons.inj hbehind
      obtain ⟨inner, hinner, rfl⟩ := ih hrest
      exact ⟨"properties" :: name :: inner, .property name hinner, rfl⟩

/-! ## Nodes on trails -/

/-- The pointer of a node is a base with a trail behind it. -/
def OnTrail (p : String) (W : Validator) : Prop :=
  ∃ tokens, Trail tokens ∧ W.pointer = p ++ Pointer.ofTokens tokens

section
variable {p keyword : String} {V W : Validator}

theorem OnTrail.root (h : W.pointer = p) : OnTrail p W :=
  ⟨[], .root, by rw [h, Pointer.append_ofTokens_nil]⟩

theorem OnTrail.under {before : List String} (hbefore : ∀ tokens, Trail tokens → Trail (before ++ tokens))
    (h : OnTrail (p ++ Pointer.ofTokens before) W) : OnTrail p W := by
  obtain ⟨tokens, htokens, hp⟩ := h
  exact ⟨before ++ tokens, hbefore tokens htokens, by rw [hp, Pointer.ofTokens_append, String.append_assoc]⟩

theorem escape_of_mem_listKeywords (hk : keyword ∈ listKeywords) : Pointer.escape keyword = keyword := by
  revert keyword
  decide

theorem OnTrail.listed (hk : keyword ∈ listKeywords) (h : W.pointer = p ++ "/" ++ keyword) :
    OnTrail p W :=
  ⟨[keyword], .listed hk, by rw [h, append_ofTokens_keyword (escape_of_mem_listKeywords hk)]⟩

theorem OnTrail.place (hk : keyword ∈ listKeywords) {i : Nat}
    (h : OnTrail (p ++ "/" ++ keyword ++ "/" ++ toString i) W) : OnTrail p W := by
  rw [← append_ofTokens_place (escape_of_mem_listKeywords hk)] at h
  exact h.under fun tokens => .place hk i

theorem OnTrail.items (h : OnTrail (p ++ "/items") W) : OnTrail p W := by
  have hplain : p ++ "/items" = p ++ "/" ++ "items" := append_slashed (by rfl) p
  rw [hplain, ← append_ofTokens_keyword (by decide)] at h
  exact h.under fun tokens => .items

theorem OnTrail.property {name : String} (h : OnTrail (Pointer.child (p ++ "/properties") name) W) :
    OnTrail p W := by
  rw [← append_ofTokens_property] at h
  exact h.under fun tokens => .property name

theorem throughout_onTrail_leaf (hc : W.children = []) (h : W.pointer = p) : W.Throughout (OnTrail p) :=
  throughout_iff.2 ⟨.root h, by simp [hc]⟩

theorem throughout_onTrail_places (hk : keyword ∈ listKeywords) {i : Nat} {nodes : List Value}
    {Vs : List Validator}
    (h : AtPlaces (fun _ q W => W.Throughout (OnTrail q)) (p ++ "/" ++ keyword) i nodes Vs) :
    ∀ W ∈ Vs, W.Throughout (OnTrail p) :=
  forall₂_right h fun _ _ _ hW => hW.imp fun _ => .place hk

theorem throughout_onTrail_unionOf (hk : keyword ∈ listKeywords) {i : Nat} {nodes : List Value}
    {Vs : List Validator}
    (h : AtPlaces (fun _ q W => W.Throughout (OnTrail q)) (p ++ "/" ++ keyword) i nodes Vs)
    (hV : unionOf (p ++ "/" ++ keyword) Vs = .ok V) : V.Throughout (OnTrail p) :=
  throughout_unionOf hV (throughout_onTrail_places hk h) (.listed hk rfl)

end

/-! ## Compiled trees -/

/-- All nodes of a compiled tree are on trails. -/
theorem onTrail_compile [CharacterNames] {s : Value} {mode : Closedness} {p : String} {V : Validator}
    (hV : compile s mode p = .ok V) : ∀ W ∈ V.nodes, OnTrail p W := by
  have hsteps : Compositional mode (fun _ p W => W.Throughout (OnTrail p))
      (fun _ _ p W => W.Throughout (OnTrail p)) := {
    bool := fun b p => by cases b <;> exact throughout_onTrail_leaf rfl rfl
    literal := fun fields p v _ => throughout_onTrail_leaf rfl rfl
    choices := fun fields p values V _ hV => by
      obtain ⟨es, -, -, ⟨e, -, rfl⟩ | ⟨texts, -, rfl⟩ | ⟨-, rfl⟩⟩ := compileEnum_eq_ok hV
      · exact throughout_onTrail_leaf rfl rfl
      · exact throughout_onTrail_leaf rfl rfl
      · refine throughout_iff.2 ⟨.root rfl, fun c hc => ?_⟩
        obtain ⟨e, -, rfl⟩ := List.mem_map.1 hc
        have hplain : p ++ "/enum/" = p ++ "/" ++ "enum" ++ "/" := by simp [String.append_assoc]
        have hk : "enum" ∈ listKeywords := by decide
        have hW : OnTrail p (.literal (p ++ "/enum/" ++ toString e.2) e.1) := by
          rw [hplain]
          exact .place hk (.root rfl)
        exact throughout_iff.2 ⟨hW, nofun⟩
    union := fun fields p keyword nodes Vs V hr hVs hV => by
      have hfrom := fields.reading_isFrom
      rw [hr] at hfrom
      have hk : keyword ∈ listKeywords := by rcases hfrom.1 with rfl | rfl <;> decide
      exact throughout_onTrail_unionOf hk hVs hV
    all := fun fields p nodes Vs hr hVs => by
      have hplain : p ++ "/allOf" = p ++ "/" ++ "allOf" := append_slashed (by rfl) p
      have hk : "allOf" ∈ listKeywords := by decide
      rw [hplain] at hVs ⊢
      exact throughout_intersectionOf (throughout_onTrail_places hk hVs) (.listed hk rfl)
        fun left right => .listed hk rfl
    typed := fun fields p type V _ hV => hV
    free := fun fields p _ => throughout_onTrail_leaf rfl rfl
    types := fun fields p types Vs V hVs hV => by
      have hplain : p ++ "/type" = p ++ "/" ++ "type" := append_slashed (by rfl) p
      rw [hplain] at hVs hV
      exact throughout_onTrail_unionOf (by decide) hVs hV
    untyped := fun fields p => throughout_onTrail_leaf rfl rfl
    text := fun fields p V hV => by
      obtain ⟨pattern, -, hV⟩ := bind_eq_ok_iff.1 hV
      cases hV; exact throughout_onTrail_leaf rfl rfl
    number := fun fields p => throughout_onTrail_leaf rfl rfl
    integer := fun fields p => throughout_onTrail_leaf rfl rfl
    boolean := fun fields p => throughout_onTrail_leaf rfl rfl
    null := fun fields p => throughout_onTrail_leaf rfl rfl
    array := fun fields p node items hn hi =>
      throughout_iff.2 ⟨.root rfl, by simpa [children] using hi.imp fun W => OnTrail.items⟩
    object := fun fields p declared properties required hd hp hr => by
      refine throughout_iff.2 ⟨.root rfl, fun c hc => ?_⟩
      obtain ⟨q, hq, rfl⟩ := List.mem_map.1 hc
      obtain ⟨f, -, -, hW⟩ := forall₂_left hp.flip hq
      exact hW.imp fun W => OnTrail.property }
  exact hsteps.of_compileNode s p V hV

end SchemaGuard
