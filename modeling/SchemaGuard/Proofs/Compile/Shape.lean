/-
  SchemaGuard — the shape of compiled trees.

  A condition on nodes that object nodes get from the schema they are compiled
  from, and that all other nodes have, holds throughout a compiled tree
  (`throughout_compile`). So compiled trees declare no name twice, and under a
  default that is not `strip` no node takes out fields.
-/
import SchemaGuard.Proofs.Compile.Reading

namespace SchemaGuard

open Validator

/-! ## Parts of schemas -/

theorem Value.DistinctKeys.named? {fields : Fields} (h : Value.DistinctKeys (.object fields))
    {name : String} {v : Value} (hv : fields.named? name = some v) : v.DistinctKeys :=
  (Value.distinctKeys_object.1 h).2 _ (Fields.mem_of_named? hv)

theorem Value.DistinctKeys.declared {fields declared : Fields}
    (h : Value.DistinctKeys (.object fields)) (hd : fields.declared? = some declared) :
    Value.DistinctKeys (.object declared) := by
  unfold Fields.declared? at hd
  split at hd
  next => cases hd; decide
  next hp => cases hd; exact h.named? hp
  next => split at hd <;> cases hd; decide

theorem Fields.reading_distinctKeys {fields : Fields} (h : Value.DistinctKeys (.object fields)) :
    match fields.reading with
      | .union _ (.list nodes) | .all (.list nodes) => ∀ n ∈ nodes, n.DistinctKeys
      | _ => True := by
  have hfrom := fields.reading_isFrom
  split
  next hr => rw [hr] at hfrom; exact Value.distinctKeys_list.1 (h.named? hfrom.2)
  next hr => rw [hr] at hfrom; exact Value.distinctKeys_list.1 (h.named? hfrom)
  next => trivial

/-! ## Trees put together -/

section
variable {Q : Validator → Prop} {R : Value → String → Validator → Prop} {p : String}

theorem AtPlaces.forall_mem {i : Nat} {nodes : List Value} {Vs : List Validator}
    (h : AtPlaces R p i nodes Vs) (hQ : ∀ n ∈ nodes, ∀ q W, R n q W → Q W) : ∀ W ∈ Vs, Q W :=
  forall₂_right h fun n hn W => hQ n.1 (List.fst_mem_of_mem_zipIdx hn) _ W

theorem AtNames.forall_mem {properties : Fields} {Vs : List (String × Validator)}
    (h : AtNames R p properties Vs) (hQ : ∀ f ∈ properties, ∀ q W, R f.2 q W → Q W) :
    ∀ q ∈ Vs, Q q.2 :=
  forall₂_right h fun f hf q hq => hQ f hf _ q.2 hq.2

theorem AtNames.names_eq {properties : Fields} {Vs : List (String × Validator)}
    (h : AtNames R p properties Vs) : Vs.map (fun q => Scalar.text q.1) = properties.keys := by
  induction h with
  | nil => rfl
  | cons h _ ih => simp [Fields.keys, ← h.1, ih]

theorem AtPlaces.exists_of_mem {i : Nat} {nodes : List Value} {Vs : List Validator}
    (h : AtPlaces R p i nodes Vs) {n : Value} (hn : n ∈ nodes) : ∃ q, ∃ W ∈ Vs, R n q W := by
  have hfst : n ∈ (nodes.zipIdx i).map (·.1) := by rwa [List.zipIdx_map_fst]
  obtain ⟨m, hm, rfl⟩ := List.mem_map.1 hfst
  obtain ⟨W, hW, hR⟩ := forall₂_left h hm
  exact ⟨_, W, hW, hR⟩

theorem throughout_unionOf {Vs : List Validator} {V : Validator} (hV : unionOf p Vs = .ok V)
    (hVs : ∀ W ∈ Vs, W.Throughout Q) (hu : Q (.union p Vs)) : V.Throughout Q := by
  rcases unionOf_eq_ok_iff.1 hV with rfl | ⟨-, rfl⟩
  · exact hVs V (by simp)
  · exact throughout_iff.2 ⟨hu, hVs⟩

theorem throughout_intersectionOf {Vs : List Validator} (hVs : ∀ W ∈ Vs, W.Throughout Q)
    (ha : Q (.any p)) (hb : ∀ left right, Q (.both p left right)) :
    (intersectionOf p Vs).Throughout Q := by
  cases Vs with
  | nil => exact throughout_iff.2 ⟨ha, nofun⟩
  | cons V Vs =>
    have hV : V.Throughout Q := hVs V (by simp)
    have hrest : ∀ W ∈ Vs, W.Throughout Q := fun W hW => hVs W (by simp [hW])
    clear hVs
    rw [intersectionOf]
    induction Vs generalizing V with
    | nil => exact hV
    | cons W Vs ih =>
      refine ih (.both p V W) (throughout_iff.2 ⟨hb V W, ?_⟩) fun U hU => hrest U (by simp [hU])
      simpa [children] using ⟨hV, hrest W (by simp)⟩

end

/-! ## Acceptance by trees put together -/

section
variable {p : String} {Vs : List Validator} {v : Value}

theorem exists_accepts_of_unionOf {V : Validator} (hV : unionOf p Vs = .ok V) {o : Value}
    (h : V.Accepts v o) : ∃ W ∈ Vs, W.Accepts v o := by
  rcases unionOf_eq_ok_iff.1 hV with rfl | ⟨-, rfl⟩
  · exact ⟨V, by simp, h⟩
  · obtain ⟨before, W, after, rfl, -, hW⟩ := accepts_union_iff.1 h
    exact ⟨W, by simp, hW⟩

theorem exists_accepts_unionOf {V : Validator} (hV : unionOf p Vs = .ok V)
    (hs : ∀ W ∈ Vs, W.Settles v) {W : Validator} (hW : W ∈ Vs) {o : Value} (h : W.Accepts v o) :
    ∃ o', V.Accepts v o' := by
  rcases unionOf_eq_ok_iff.1 hV with rfl | ⟨-, rfl⟩
  · obtain rfl := List.mem_singleton.1 hW
    exact ⟨o, h⟩
  · exact exists_accepts_union hs hW h

theorem exists_accepts_intersectionOf_iff :
    (∃ o, (intersectionOf p Vs).Accepts v o) ↔ ∀ W ∈ Vs, ∃ o, W.Accepts v o := by
  cases Vs with
  | nil => simp [intersectionOf, accepts_any_iff]
  | cons V Vs =>
    rw [intersectionOf, List.forall_mem_cons]
    induction Vs generalizing V with
    | nil => simp
    | cons W Vs ih =>
      have hboth : (∃ o, (both p V W).Accepts v o) ↔
          (∃ o, V.Accepts v o) ∧ ∃ o, W.Accepts v o := by
        simp only [accepts_both_iff]
        constructor
        · rintro ⟨_, l, r, hl, hr, rfl⟩; exact ⟨⟨l, hl⟩, r, hr⟩
        · rintro ⟨⟨l, hl⟩, r, hr⟩; exact ⟨_, l, r, hl, hr, rfl⟩
      rw [List.foldl_cons, ih, hboth, List.forall_mem_cons, and_assoc]

end

/-! ## Compiled trees -/

/-- What object nodes get from their schemas, and all other nodes have, holds of
    all nodes of a compiled tree. -/
theorem throughout_compile [CharacterNames] {Q : Validator → Prop} {mode : Closedness} {s : Value}
    {p : String}
    {V : Validator} (hs : s.DistinctKeys) (hV : compile s mode p = .ok V)
    (hother : ∀ W : Validator, (∀ p ps r c, W ≠ .object p ps r c) → Q W)
    (hobject : ∀ (fields declared : Fields) (p : String) (properties : List (String × Validator))
      (required : List Value), Value.DistinctKeys (.object fields) → fields.declared? = some declared →
      properties.map (fun q => Scalar.text q.1) = declared.keys →
      nameSet (fields.named "required") = .ok required →
      Q (.object p properties required (closednessOf mode fields))) : V.Throughout Q := by
  have hleaf : ∀ W : Validator, W.children = [] → (∀ p ps r c, W ≠ .object p ps r c) →
      W.Throughout Q := fun W hc hW => throughout_iff.2 ⟨hother W hW, by simp [hc]⟩
  have hsteps : Compositional mode (fun n _ W => n.DistinctKeys → W.Throughout Q)
      (fun fields _ _ W => Value.DistinctKeys (.object fields) → W.Throughout Q) := {
    bool := fun b p _ => by cases b <;> exact hleaf _ rfl nofun
    literal := fun fields p v _ _ => hleaf _ rfl nofun
    choices := fun fields p values V _ hV _ => by
      obtain ⟨es, -, -, ⟨e, -, rfl⟩ | ⟨texts, -, rfl⟩ | ⟨-, rfl⟩⟩ := compileEnum_eq_ok hV
      · exact hleaf _ rfl nofun
      · exact hleaf _ rfl nofun
      · refine throughout_iff.2 ⟨hother _ nofun, fun c hc => ?_⟩
        obtain ⟨e, -, rfl⟩ := List.mem_map.1 hc
        exact hleaf _ rfl nofun
    union := fun fields p keyword nodes Vs V hr hVs hV hj => by
      have hnodes := Fields.reading_distinctKeys hj
      rw [hr] at hnodes
      exact throughout_unionOf hV (hVs.forall_mem fun n hn q W hW => hW (hnodes n hn))
        (hother _ nofun)
    all := fun fields p nodes Vs hr hVs hj => by
      have hnodes := Fields.reading_distinctKeys hj
      rw [hr] at hnodes
      exact throughout_intersectionOf (hVs.forall_mem fun n hn q W hW => hW (hnodes n hn))
        (hother _ nofun) fun _ _ => hother _ nofun
    typed := fun fields p type V _ hV => hV
    free := fun fields p _ _ => hleaf _ rfl nofun
    types := fun fields p types Vs V hVs hV hj =>
      throughout_unionOf hV (hVs.forall_mem fun _ _ _ _ hW => hW hj) (hother _ nofun)
    untyped := fun fields p _ => hleaf _ rfl nofun
    text := fun fields p V hV _ => by
      obtain ⟨pattern, -, hV⟩ := bind_eq_ok_iff.1 hV
      cases hV; exact hleaf _ rfl nofun
    number := fun fields p _ => hleaf _ rfl nofun
    integer := fun fields p _ => hleaf _ rfl nofun
    boolean := fun fields p _ => hleaf _ rfl nofun
    null := fun fields p _ => hleaf _ rfl nofun
    array := fun fields p node items hn hi hj =>
      throughout_iff.2 ⟨hother _ nofun, by simpa [children] using hi (hj.named? hn)⟩
    object := fun fields p declared properties required hd hp hr hj => by
      have hparts := (Value.distinctKeys_object.1 (hj.declared hd)).2
      refine throughout_iff.2 ⟨hobject fields declared p properties required hj hd hp.names_eq hr, ?_⟩
      intro c hc
      obtain ⟨q, hq, rfl⟩ := List.mem_map.1 hc
      exact hp.forall_mem (fun f hf _ _ hW => hW (hparts f hf)) q hq }
  exact hsteps.of_compileNode s p V hV hs

/-- A compiled tree declares no name twice. -/
theorem distinctNames_of_distinctKeys [CharacterNames] {mode : Closedness} {s : Value} {p : String}
    {V : Validator}
    (hs : s.DistinctKeys) (hV : compile s mode p = .ok V) : V.DistinctNames := by
  refine throughout_compile hs hV (fun W hW => ?_) fun fields declared p ps r hj hd hnames _ => ?_
  · cases W with
    | object p ps r c => exact absurd rfl (hW p ps r c)
    | _ => exact List.nodup_nil
  · have hkeys := (Value.distinctKeys_object.1 (hj.declared hd)).1
    rw [← hnames] at hkeys
    refine List.Nodup.of_map Scalar.text ?_
    rwa [names, List.map_map]

theorem distinctNames_compile [CharacterNames] {mode : Closedness} {s : Value} {p : String}
    {V : Validator}
    (hs : s.IsJson) (hV : compile s mode p = .ok V) : V.DistinctNames :=
  distinctNames_of_distinctKeys hs.distinctKeys hV

/-- Only the default `strip` makes nodes that take out fields. -/
theorem keeping_of_distinctKeys [CharacterNames] {mode : Closedness} (hm : mode ≠ .strip)
    {s : Value} {p : String}
    {V : Validator} (hs : s.DistinctKeys) (hV : compile s mode p = .ok V) : V.Keeping := by
  refine throughout_compile hs hV (fun W hW => ?_) fun fields declared p ps r _ _ _ _ => ?_
  · cases W with
    | object p ps r c => exact absurd rfl (hW p ps r c)
    | _ => simp [strips]
  · simp only [strips, beq_iff_eq]
    unfold closednessOf
    split <;> simp_all

theorem keeping_compile [CharacterNames] {mode : Closedness} (hm : mode ≠ .strip) {s : Value}
    {p : String}
    {V : Validator} (hs : s.IsJson) (hV : compile s mode p = .ok V) : V.Keeping :=
  keeping_of_distinctKeys hm hs.distinctKeys hV

end SchemaGuard
