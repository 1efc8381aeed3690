/-
  SchemaGuard — where the nodes of a compiled tree come from.

  * `Lands mode s p tokens W`: the tokens lead to what the reporting node `W` of a
    tree compiled at `p` was compiled from;
  * `located_compileNode`: every reporting node of a compiled tree has tokens at
    which it lands, and different nodes have different ones.

  As a pointer tells its tokens, pointers of issues lead to what reported them, and
  to nothing else: `compile_pointers`.
-/
import SchemaGuard.Proofs.Compile.Retyping
import SchemaGuard.Proofs.Pointer.Tokens
import SchemaGuard.Proofs.Schema.Walk
import SchemaGuard.Proofs.Validator.Reporters

namespace SchemaGuard

open Validator

/-! ## What a node was compiled from -/

section
variable {mode : Closedness} {s n : Value} {p : String} {V W : Validator} {pre tokens : List String}

/-- Tokens lead to what a reporting node, of a tree compiled from `s` at `p`, was
    compiled from. -/
inductive Lands [CharacterNames] (mode : Closedness) (s : Value) (p : String) : List String → Validator → Prop where
  /-- a schema -/
  | schema {tokens : List String} {node : Value} {W : Validator} (hnode : s.resolve tokens = some node)
      (hW : compileNode mode node (p ++ Pointer.ofTokens tokens) = .ok W)
      (hp : W.pointer = p ++ Pointer.ofTokens tokens) : Lands mode s p tokens W
  /-- the list of the branches of a union -/
  | branches {tokens : List String} {keyword : String} {node : Value} {nodes : List Value}
      {Vs : List Validator} (hnode : s.resolve tokens = some node)
      (hkeyword : keyword ∈ ["anyOf", "oneOf", "type"])
      (hnodes : s.resolve (tokens ++ [keyword]) = some (.list nodes))
      (hW : compileNode mode node (p ++ Pointer.ofTokens tokens) =
        .ok (.union (p ++ Pointer.ofTokens (tokens ++ [keyword])) Vs)) :
      Lands mode s p (tokens ++ [keyword]) (.union (p ++ Pointer.ofTokens (tokens ++ [keyword])) Vs)
  /-- a value of an `enum` that is read as a union -/
  | member {tokens : List String} {i : Nat} {node e : Value} {Vs : List Validator}
      (hnode : s.resolve tokens = some node) (he : s.resolve (tokens ++ ["enum", toString i]) = some e)
      (hW : compileNode mode node (p ++ Pointer.ofTokens tokens) =
        .ok (.union (p ++ Pointer.ofTokens tokens) Vs))
      (hmem : .literal (p ++ Pointer.ofTokens (tokens ++ ["enum", toString i])) e ∈ Vs) :
      Lands mode s p (tokens ++ ["enum", toString i])
        (.literal (p ++ Pointer.ofTokens (tokens ++ ["enum", toString i])) e)

theorem Lands.pointer_eq [CharacterNames] (h : Lands mode s p tokens W) :
    W.pointer = p ++ Pointer.ofTokens tokens := by
  cases h with
  | schema hnode hW hp => exact hp
  | branches | member => rfl

/-- What lands in a part of a schema lands in the schema, behind the tokens of the part. -/
theorem Lands.under [CharacterNames] (hpart : ∀ ts, s.resolve (pre ++ ts) = n.resolve ts)
    (h : Lands mode n (p ++ Pointer.ofTokens pre) tokens W) : Lands mode s p (pre ++ tokens) W := by
  have hpointer : ∀ ts, p ++ Pointer.ofTokens pre ++ Pointer.ofTokens ts =
      p ++ Pointer.ofTokens (pre ++ ts) := fun ts => by rw [Pointer.ofTokens_append, String.append_assoc]
  cases h with
  | schema hnode hW hp =>
    rw [hpointer] at hW hp
    exact .schema ((hpart _).trans hnode) hW hp
  | branches hnode hkeyword hnodes hW =>
    rw [← hpart] at hnode hnodes
    rw [hpointer, hpointer] at hW
    rw [hpointer]
    rw [← List.append_assoc] at hnodes hW ⊢
    exact .branches hnode hkeyword hnodes hW
  | member hnode he hW hmem =>
    rw [← hpart] at hnode he
    rw [hpointer] at hW hmem
    rw [hpointer]
    rw [← List.append_assoc] at he hmem ⊢
    exact .member hnode he hW hmem

/-! ## Different nodes, different tokens -/

/-- The nodes of a list land at different tokens, which all begin in one of the given ways. -/
def Located [CharacterNames] (mode : Closedness) (s : Value) (p : String) (starts : List (List String))
    (Ws : List Validator) : Prop :=
  ∃ addresses, List.Forall₂ (Lands mode s p) addresses Ws ∧ addresses.Nodup ∧
    ∀ ts ∈ addresses, ∃ start ∈ starts, start <+: ts

variable {starts : List (List String)} {Ws Vs : List Validator}

theorem Located.nil [CharacterNames] : Located mode s p starts [] := ⟨[], .nil, List.nodup_nil, nofun⟩

theorem Located.anywhere [CharacterNames] (h : Located mode s p starts Ws) : Located mode s p [[]] Ws := by
  obtain ⟨addresses, hlands, hnodup, -⟩ := h
  exact ⟨addresses, hlands, hnodup, fun ts _ => ⟨[], by simp, List.nil_prefix⟩⟩

theorem Located.singleton [CharacterNames] (hW : Lands mode s p tokens W) : Located mode s p [tokens] [W] := by
  refine ⟨[tokens], .cons hW .nil, List.nodup_singleton _, fun ts hts => ⟨tokens, by simp, ?_⟩⟩
  rw [List.mem_singleton.1 hts]

theorem Located.cons [CharacterNames] (hV : Lands mode s p tokens V) (hne : ∀ start ∈ starts, ¬ start <+: tokens)
    (h : Located mode s p starts Ws) : Located mode s p [[]] (V :: Ws) := by
  obtain ⟨addresses, hlands, hnodup, hstart⟩ := h
  refine ⟨tokens :: addresses, .cons hV hlands, List.nodup_cons.2 ⟨fun hmem => ?_, hnodup⟩, ?_⟩
  · obtain ⟨start, hs, hprefix⟩ := hstart tokens hmem
    exact hne start hs hprefix
  · exact fun ts _ => ⟨[], by simp, List.nil_prefix⟩

theorem Located.under [CharacterNames] (hpart : ∀ ts, s.resolve (pre ++ ts) = n.resolve ts)
    (h : Located mode n (p ++ Pointer.ofTokens pre) starts Ws) : Located mode s p [pre] Ws := by
  obtain ⟨addresses, hlands, hnodup, -⟩ := h
  refine ⟨addresses.map (pre ++ ·), ?_, hnodup.map fun _ _ => List.append_cancel_left, ?_⟩
  · exact List.forall₂_map_left_iff.2 (hlands.imp fun ts W hW => hW.under hpart)
  · intro ts hts
    obtain ⟨us, -, rfl⟩ := List.mem_map.1 hts
    exact ⟨pre, by simp, List.prefix_append pre us⟩

/-- Trees behind different tokens, as many for each, are located together. -/
theorem Located.flatMap [CharacterNames] {k : Nat} (hlength : ∀ start ∈ starts, start.length = k)
    (hnodup : starts.Nodup)
    (h : List.Forall₂ (fun start V => Located mode s p [start] V.reporters) starts Vs) :
    Located mode s p starts (Vs.flatMap reporters) := by
  induction h with
  | nil => exact .nil
  | @cons start V starts Vs hV _ ih =>
    obtain ⟨hstart, hstarts⟩ := List.nodup_cons.1 hnodup
    obtain ⟨first, hfirst, hfirstNodup, hfirstStart⟩ := hV
    obtain ⟨rest, hrest, hrestNodup, hrestStart⟩ := ih (fun u hu => hlength u (by simp [hu])) hstarts
    have hdisjoint : first.Disjoint rest := by
      intro ts hts hts'
      obtain ⟨start', hmem, hprefix⟩ := hfirstStart ts hts
      rw [List.mem_singleton.1 hmem] at hprefix
      obtain ⟨u, hu, hprefix'⟩ := hrestStart ts hts'
      -- starts of one length that begin the same tokens are the same
      have hlen : start.length = u.length := by rw [hlength start (by simp), hlength u (by simp [hu])]
      have heq : start = u :=
        (List.prefix_of_prefix_length_le hprefix hprefix' hlen.le).eq_of_length hlen
      exact hstart (heq ▸ hu)
    refine ⟨first ++ rest, List.rel_append hfirst hrest, hfirstNodup.append hrestNodup hdisjoint, ?_⟩
    intro ts hts
    rcases List.mem_append.1 hts with hts | hts
    · obtain ⟨u, hu, hprefix⟩ := hfirstStart ts hts
      exact ⟨u, List.mem_cons.2 (Or.inl (List.mem_singleton.1 hu)), hprefix⟩
    · obtain ⟨u, hu, hprefix⟩ := hrestStart ts hts
      exact ⟨u, List.mem_cons_of_mem _ hu, hprefix⟩

end

/-! ## Nodes -/

section
variable {mode : Closedness} {s node : Value} {fields : Fields} {p keyword : String} {V : Validator}
  {nodes : List Value} {Vs : List Validator}

theorem append_slashed {slashed : String} (h : "/" ++ keyword = slashed) (p : String) :
    p ++ slashed = p ++ "/" ++ keyword := by
  rw [← h, String.append_assoc]

theorem append_ofTokens_keyword (hk : Pointer.escape keyword = keyword) (p : String) :
    p ++ Pointer.ofTokens [keyword] = p ++ "/" ++ keyword := by
  rw [Pointer.append_ofTokens_cons, Pointer.append_ofTokens_nil, Pointer.child_eq hk]

theorem append_ofTokens_place (hk : Pointer.escape keyword = keyword) (p : String) (i : Nat) :
    p ++ Pointer.ofTokens [keyword, toString i] = p ++ "/" ++ keyword ++ "/" ++ toString i := by
  rw [Pointer.append_ofTokens_cons, append_ofTokens_keyword (Pointer.escape_toString i), Pointer.child_eq hk]

theorem append_ofTokens_property (p name : String) :
    p ++ Pointer.ofTokens ["properties", name] = Pointer.child (p ++ "/properties") name := by
  have hplain : Pointer.child p "properties" = p ++ "/properties" := by
    rw [Pointer.child_eq (by decide)]
    exact (append_slashed (by rfl) p).symm
  rw [Pointer.append_ofTokens_cons, Pointer.append_ofTokens_cons, Pointer.append_ofTokens_nil, hplain]

theorem Lands.root [CharacterNames] (hV : compileNode mode node p = .ok V) (hp : V.pointer = p) :
    Lands mode node p [] V := by
  refine .schema rfl ?_ ?_
  · rwa [Pointer.append_ofTokens_nil]
  · rwa [Pointer.append_ofTokens_nil]

theorem located_leaf [CharacterNames] (hV : compileNode mode node p = .ok V) (hp : V.pointer = p)
    (hc : V.children = []) :
    Located mode node p [[]] V.reporters := by
  rw [reporters_eq, hc, List.flatMap_nil, List.append_nil]
  split
  · exact .singleton (.root hV hp)
  · exact .nil

/-- The tokens of the items behind a keyword. -/
def places (keyword : String) (nodes : List Value) : List (List String) :=
  nodes.zipIdx.map fun n => [keyword, toString n.2]

theorem length_of_mem_places {start : List String} (h : start ∈ places keyword nodes) : start.length = 2 := by
  obtain ⟨n, -, rfl⟩ := List.mem_map.1 h
  rfl

theorem not_prefix_of_mem_places {start : List String} (h : start ∈ places keyword nodes) {ts : List String}
    (hts : ts.length < 2) : ¬ start <+: ts := by
  intro hprefix
  have hle := hprefix.length_le
  rw [length_of_mem_places h] at hle
  omega

theorem nodup_places (keyword : String) (nodes : List Value) : (places keyword nodes).Nodup := by
  have hindices : (nodes.zipIdx.map Prod.snd).Nodup := by
    rw [List.zipIdx_map_snd]; exact List.nodup_range'
  have hstarts := hindices.map (f := fun i => [keyword, toString i]) fun i j h => by simpa using h
  rwa [List.map_map] at hstarts

theorem located_places [CharacterNames]
    (h : List.Forall₂ (fun n W => Located mode s p [[keyword, toString n.2]] W.reporters)
    nodes.zipIdx Vs) : Located mode s p (places keyword nodes) (Vs.flatMap reporters) :=
  .flatMap (fun _ => length_of_mem_places) (nodup_places keyword nodes) (List.forall₂_map_left_iff.2 h)

/-- Trees of the items behind a keyword, or of copies that stand for them. -/
theorem located_branches [CharacterNames] (copy : Value → Value) (hk : Pointer.escape keyword = keyword)
    (hcopy : ∀ (i : Nat) n, nodes[i]? = some n →
      ∀ ts, s.resolve (keyword :: toString i :: ts) = (copy n).resolve ts)
    (hVs : AtPlaces (fun n q W => Located mode (copy n) q [[]] W.reporters) (p ++ "/" ++ keyword) 0 nodes Vs) :
    Located mode s p (places keyword nodes) (Vs.flatMap reporters) := by
  refine located_places (((List.forall₂_and_left _ _).2 ⟨fun n hn => hn, hVs⟩).imp fun n W hn => ?_)
  obtain ⟨hmem, hW⟩ := hn
  rw [← append_ofTokens_place hk] at hW
  exact hW.under (hcopy n.2 n.1 (List.mem_zipIdx_iff_getElem?.1 hmem))

theorem located_unionOf [CharacterNames] (hk : Pointer.escape keyword = keyword)
    (hkeyword : keyword ∈ ["anyOf", "oneOf", "type"]) (hnodes : fields.named? keyword = some (.list nodes))
    (hV : compileNode mode (.object fields) p = .ok V) (hunion : unionOf (p ++ "/" ++ keyword) Vs = .ok V)
    (hVs : Located mode (.object fields) p (places keyword nodes) (Vs.flatMap reporters)) :
    Located mode (.object fields) p [[]] V.reporters := by
  rcases unionOf_eq_ok_iff.1 hunion with rfl | ⟨-, rfl⟩
  · simpa using hVs.anywhere
  · have hself : Lands mode (.object fields) p [keyword] (.union (p ++ "/" ++ keyword) Vs) := by
      rw [← append_ofTokens_keyword hk] at hV ⊢
      have hroot : Lands mode (.object fields) p ([] ++ [keyword]) _ :=
        .branches rfl hkeyword hnodes (by rwa [Pointer.append_ofTokens_nil])
      exact hroot
    rw [reporters_eq_cons rfl]
    exact hVs.cons hself fun start hstart => not_prefix_of_mem_places hstart (by simp)

theorem reporters_intersectionOf (Vs : List Validator) :
    (intersectionOf p Vs).reporters = Vs.flatMap reporters := by
  cases Vs with
  | nil => rfl
  | cons V Vs =>
    rw [intersectionOf]
    induction Vs generalizing V with
    | nil => simp
    | cons W Vs ih =>
      have hboth : (Validator.both p V W).reporters = V.reporters ++ W.reporters := by
        rw [reporters_eq]; simp [reports, children]
      rw [List.foldl_cons, ih, List.flatMap_cons, hboth]
      simp [List.append_assoc]

theorem located_choices [CharacterNames] {values : Value} (hvalues : fields.named? "enum" = some values)
    (hV : compileNode mode (.object fields) p = .ok V) (henum : compileEnum values p = .ok V) :
    Located mode (.object fields) p [[]] V.reporters := by
  obtain ⟨es, rfl, -, ⟨e, -, rfl⟩ | ⟨texts, -, rfl⟩ | ⟨-, rfl⟩⟩ := compileEnum_eq_ok henum
  · exact located_leaf hV rfl rfl
  · exact located_leaf hV rfl rfl
  · have hpointer : ∀ i : Nat, p ++ Pointer.ofTokens ["enum", toString i] = p ++ "/enum/" ++ toString i := by
      intro i
      have hplain : "/" ++ "enum" ++ "/" = "/enum/" := rfl
      rw [append_ofTokens_place (by decide), ← hplain]
      simp only [String.append_assoc]
    have hmember : ∀ e ∈ es.zipIdx, Lands mode (.object fields) p ([] ++ ["enum", toString e.2])
        (.literal (p ++ Pointer.ofTokens ([] ++ ["enum", toString e.2])) e.1) := fun e he => by
      refine .member rfl ?_ (by rwa [Pointer.append_ofTokens_nil]) (List.mem_map.2 ⟨e, he, ?_⟩)
      · exact Value.resolve_branch (by decide) hvalues (List.mem_zipIdx_iff_getElem?.1 he)
      · rw [List.nil_append, hpointer]
    have hmembers : Located mode (.object fields) p (places "enum" es)
        ((es.zipIdx.map fun e => literal (p ++ "/enum/" ++ toString e.2) e.1).flatMap reporters) := by
      refine located_places ?_
      rw [List.forall₂_map_right_iff, List.forall₂_same]
      intro e he
      have hW := Located.singleton (hmember e he)
      rwa [List.nil_append, hpointer] at hW
    rw [reporters_eq_cons rfl]
    exact hmembers.cons (.root hV rfl) fun start hstart => not_prefix_of_mem_places hstart (by simp)

theorem Fields.declared?_eq_some {declared : Fields} (h : fields.declared? = some declared) :
    declared = [] ∨ fields.named? "properties" = some (.object declared) := by
  unfold Fields.declared? at h
  split at h
  next => cases h; exact Or.inl rfl
  next hp => cases h; exact Or.inr hp
  next => split at h <;> cases h; exact Or.inl rfl

theorem located_properties [CharacterNames] {declared : Fields} {properties : List (String × Validator)}
    (hd : fields.declared? = some declared) (hnodup : declared.keys.Nodup)
    (hlist : ∀ f ∈ declared, ∀ items, f.2 ≠ .list items)
    (hps : AtNames (fun n q W => Located mode n q [[]] W.reporters) p declared properties) :
    Located mode (.object fields) p (properties.map fun q => ["properties", q.1])
      ((properties.map (·.2)).flatMap reporters) := by
  refine .flatMap (k := 2) ?_ ?_ ?_
  · intro start hstart
    obtain ⟨q, -, rfl⟩ := List.mem_map.1 hstart
    rfl
  · have hnames : (properties.map (·.1)).Nodup := by
      refine List.Nodup.of_map Scalar.text ?_
      rw [← hps.names_eq] at hnodup
      rwa [List.map_map]
    have hstarts := hnames.map (f := fun name => ["properties", name]) fun a b h => by simpa using h
    rwa [List.map_map] at hstarts
  · rw [List.forall₂_map_left_iff, List.forall₂_map_right_iff, List.forall₂_same]
    intro q hq
    obtain ⟨f, hf, hkey, hW⟩ := forall₂_left hps.flip hq
    rcases Fields.declared?_eq_some hd with rfl | hproperties
    · cases hf
    have hnamed : declared.named? q.1 = some f.2 := by
      rw [Fields.named?_eq_lookup, Fields.lookup_eq_some_iff hnodup, ← hkey]
      exact hf
    have hresolve : ∀ ts, (Value.object fields).resolve ("properties" :: q.1 :: ts) = f.2.resolve ts :=
      fun ts => Value.resolve_property hproperties hnamed fun items htype =>
        hlist _ (Fields.mem_of_named? htype) items rfl
    rw [← append_ofTokens_property] at hW
    exact hW.under hresolve

/-- What is smaller than a node is located where it is compiled. -/
def LocatedBelow [CharacterNames] (mode : Closedness) (node : Value) : Prop :=
  ∀ n, sizeOf n < sizeOf node → ∀ q W, n.DistinctKeys → compileNode mode n q = .ok W →
    Located mode n q [[]] W.reporters

theorem located_types [CharacterNames] (ih : LocatedBelow mode (.object fields))
    (hj : Value.DistinctKeys (.object fields)) {types : List Value}
    (hr : fields.reading = .typed (.list types)) (hV : compileNode mode (.object fields) p = .ok V)
    (hT : compileTyped mode fields (.list types) p = .ok V) :
    Located mode (.object fields) p [[]] V.reporters := by
  have hfrom := fields.reading_isFrom
  rw [hr] at hfrom
  obtain ⟨Vs, hVs, hunion⟩ := compileTyped_list_eq_ok_iff.1 hT
  have hplain : p ++ "/type" = p ++ "/" ++ "type" := append_slashed (by rfl) p
  rw [hplain] at hVs hunion
  refine located_unionOf (by decide) (by decide) hfrom hV hunion ?_
  refine located_branches (fun t => .object (fields.set "type" t)) (by decide)
    (fun i t ht ts => Value.resolve_type hfrom ht) (hVs.imp fun t ht q W hW => ?_)
  -- the copy is no part of the node, so the induction cannot be on parts; but it is smaller
  rw [← compileNode_set_type hr] at hW
  have hsmaller : sizeOf t < sizeOf (Value.list types) := by
    have := List.sizeOf_lt_of_mem ht
    simp only [Value.list.sizeOf_spec]
    omega
  have hlt : sizeOf (Value.object (fields.set "type" t)) < sizeOf (Value.object fields) := by
    have := Fields.sizeOf_set_lt hfrom hsmaller
    simpa only [Value.object.sizeOf_spec, Nat.add_lt_add_iff_left] using this
  exact ih _ hlt q W (hj.set hfrom (Value.distinctKeys_list.1 (hj.named? hfrom) t ht)) hW

theorem located_array [CharacterNames] (ih : LocatedBelow mode (.object fields))
    (hj : Value.DistinctKeys (.object fields))
    {items : Validator} {rules : ListRules} (hV : compileNode mode (.object fields) p = .ok (.list p items rules))
    (hn : fields.named? "items" = some node) (hi : compileNode mode node (p ++ "/items") = .ok items) :
    Located mode (.object fields) p [[]] (Validator.list p items rules).reporters := by
  have hplain : p ++ "/items" = p ++ Pointer.ofTokens ["items"] := by
    rw [append_ofTokens_keyword (by decide)]
    exact append_slashed (by rfl) p
  have hitems := ih node (Fields.sizeOf_lt_node hn) _ items (hj.named? hn) hi
  rw [hplain] at hitems
  have hbelow : Located mode (.object fields) p [["items"]] items.reporters :=
    hitems.under fun ts => Value.resolve_items hn
  rw [reporters_eq_cons rfl]
  simp only [children, List.flatMap_cons, List.flatMap_nil, List.append_nil]
  exact hbelow.cons (.root hV rfl) (by simp)

theorem located_object [CharacterNames] (ih : LocatedBelow mode (.object fields))
    (hj : Value.DistinctKeys (.object fields))
    {declared : Fields} {properties : List (String × Validator)} {required : List Value} {c : Closedness}
    (hV : compileNode mode (.object fields) p = .ok (.object p properties required c))
    (hd : fields.declared? = some declared)
    (hps : AtNames (fun n q W => compileNode mode n q = .ok W) p declared properties) :
    Located mode (.object fields) p [[]] (Validator.object p properties required c).reporters := by
  obtain ⟨hnodup, hparts⟩ := Value.distinctKeys_object.1 (hj.declared hd)
  have hlist : ∀ f ∈ declared, ∀ items, f.2 ≠ .list items := by
    rintro f hf items heq
    obtain ⟨q, -, -, hW⟩ := forall₂_left hps hf
    rw [heq] at hW
    obtain ⟨_, hnode, -⟩ | ⟨_, hnode, -⟩ := compileNode_eq_ok hW <;> cases hnode
  have hlocated : AtNames (fun n q W => Located mode n q [[]] W.reporters) p declared properties :=
    hps.imp fun f hf q W hW => by
      have hlt : sizeOf f.2 < sizeOf (Value.object fields) := by
        have hfields := Fields.sizeOf_declared hd hf
        simp only [Value.object.sizeOf_spec]
        omega
      exact ih f.2 hlt q W (hparts f hf) hW
  rw [reporters_eq_cons rfl]
  refine (located_properties hd hnodup hlist hlocated).cons (.root hV rfl) fun start hstart hprefix => ?_
  obtain ⟨q, -, rfl⟩ := List.mem_map.1 hstart
  simpa using hprefix.length_le

theorem located_typed [CharacterNames] (ih : LocatedBelow mode (.object fields))
    (hj : Value.DistinctKeys (.object fields)) {type : Value}
    (hr : fields.reading = .typed type) (hV : compileNode mode (.object fields) p = .ok V)
    (hT : compileTyped mode fields type p = .ok V) :
    Located mode (.object fields) p [[]] V.reporters := by
  have hT' := hT
  rw [compileTyped.eq_def] at hT
  split at hT
  next => exact located_types ih hj hr hV hT'
  next => cases hT; exact located_leaf hV rfl rfl
  next =>
    obtain ⟨pattern, -, hW⟩ := bind_eq_ok_iff.1 hT
    cases hW
    exact located_leaf hV rfl rfl
  next => cases hT; exact located_leaf hV rfl rfl
  next => cases hT; exact located_leaf hV rfl rfl
  next => cases hT; exact located_leaf hV rfl rfl
  next => cases hT; exact located_leaf hV rfl rfl
  next =>
    obtain ⟨node, items, hn, -, hi, rfl⟩ := compileTyped_array_eq_ok_iff.1 hT'
    exact located_array ih hj hV hn hi
  next =>
    obtain ⟨declared, properties, required, hd, hps, -, rfl⟩ := compileTyped_object_eq_ok_iff.1 hT'
    exact located_object ih hj hV hd hps
  next => cases hT

theorem located_compileFields [CharacterNames] (ih : LocatedBelow mode (.object fields))
    (hj : Value.DistinctKeys (.object fields))
    (hV : compileNode mode (.object fields) p = .ok V) :
    Located mode (.object fields) p [[]] V.reporters := by
  have hF := hV
  rw [compileNode, compileFields_eq] at hF
  have hfrom := fields.reading_isFrom
  have hparts := Fields.reading_distinctKeys hj
  cases hr : fields.reading with
  | reference => rw [hr] at hF; cases hF
  | literal v => rw [hr] at hF; cases hF; exact located_leaf hV rfl rfl
  | choices values => rw [hr] at hF hfrom; exact located_choices hfrom hV hF
  | free => rw [hr] at hF; cases hF; exact located_leaf hV rfl rfl
  | typed type => rw [hr] at hF; exact located_typed ih hj hr hV hF
  | union keyword nodes =>
    rw [hr] at hF hfrom hparts
    obtain ⟨ns, Vs, rfl, hVs, hunion⟩ := compileUnion_eq_ok_iff.1 hF
    have hk : Pointer.escape keyword = keyword ∧ keyword ≠ "type" ∧ keyword ∈ ["anyOf", "oneOf", "type"] := by
      rcases hfrom.1 with rfl | rfl <;> decide
    refine located_unionOf hk.1 hk.2.2 hfrom.2 hV hunion ?_
    exact located_branches id hk.1 (fun i n hn ts => Value.resolve_branch hk.2.1 hfrom.2 hn)
      (hVs.imp fun n hn q W => ih n (Fields.sizeOf_lt_node_of_mem hfrom.2 hn) q W (hparts n hn))
  | all nodes =>
    rw [hr] at hF hfrom hparts
    cases nodes with
    | list ns =>
      simp only [bind_eq_ok_iff, compileBranches_eq_ok_iff, pure, Except.pure, Except.ok.injEq] at hF
      obtain ⟨Vs, hVs, rfl⟩ := hF
      have hplain : p ++ "/allOf" = p ++ "/" ++ "allOf" := append_slashed (by rfl) p
      rw [hplain] at hVs
      rw [reporters_intersectionOf]
      refine (located_branches id (by decide)
        (fun i n hn ts => Value.resolve_branch (by decide) hfrom hn) (hVs.imp fun n hn q W => ?_)).anywhere
      exact ih n (Fields.sizeOf_lt_node_of_mem hfrom hn) q W (hparts n hn)
    | _ => cases hF

/-- **Every reporting node has tokens at which it lands**, and different nodes have
    different ones. -/
theorem located_compileNode [CharacterNames] (mode : Closedness) : ∀ (node : Value) (p : String) (V : Validator),
    node.DistinctKeys → compileNode mode node p = .ok V → Located mode node p [[]] V.reporters
  | .object fields, p, V, hj, hV =>
    located_compileFields (fun n hn => located_compileNode mode n) hj hV
  | .scalar s, p, V, hj, hV => by
    obtain ⟨b, -, rfl⟩ | ⟨_, heq, -⟩ := compileNode_eq_ok hV
    · refine located_leaf hV ?_ ?_ <;> cases b <;> rfl
    · cases heq
  | .list items, p, V, hj, hV => by
    obtain ⟨_, heq, -⟩ | ⟨_, heq, -⟩ := compileNode_eq_ok hV <;> cases heq
  | .tuple items, p, V, hj, hV => by
    obtain ⟨_, heq, -⟩ | ⟨_, heq, -⟩ := compileNode_eq_ok hV <;> cases heq
termination_by node => sizeOf node
decreasing_by simpa only [Value.object.sizeOf_spec] using hn

end

/-! ## Pointers of a tree -/

section
variable {s : Value} {mode : Closedness} {p : String} {V W : Validator}

theorem exists_lands_compile [CharacterNames] (hs : s.DistinctKeys) (hV : compile s mode p = .ok V)
    (hW : W ∈ V.reporters) :
    ∃ tokens, Lands mode s p tokens W := by
  obtain ⟨addresses, hlands, -, -⟩ := located_compileNode mode s p V hs hV
  obtain ⟨tokens, -, hW⟩ := forall₂_left hlands.flip hW
  exact ⟨tokens, hW⟩

/-- No two reporting nodes of a compiled tree have one pointer. -/
theorem distinctPointers_compile [CharacterNames] (hs : s.DistinctKeys) (hV : compile s mode p = .ok V) :
    V.DistinctPointers := by
  obtain ⟨addresses, hlands, hnodup, -⟩ := located_compileNode mode s p V hs hV
  have hpointers : V.reporters.map pointer = addresses.map fun ts => p ++ Pointer.ofTokens ts := by
    rw [← List.forall₂_eq_eq_eq, List.forall₂_map_left_iff, List.forall₂_map_right_iff]
    exact hlands.flip.imp fun W ts hW => hW.pointer_eq
  rw [DistinctPointers, hpointers]
  refine hnodup.map fun ts us heq => Pointer.ofTokens_injective ?_
  simpa using heq

/-- **Pointers locate and identify.** The pointer of an issue, at any depth, is the
    pointer of the tree and tokens that lead to what the node that reports it was
    compiled from. No two reporting nodes have one pointer, so no two issues of a
    verdict have the same pointer, path and message. -/
theorem compile_pointers [CharacterNames] (hs : s.DistinctKeys) (hV : compile s mode p = .ok V) :
    (∀ v verdict, V.run v = .ok verdict → ∀ i ∈ Issue.allOf verdict.issues, ∃ text W,
      i.pointer = p ++ text ∧ Pointer.ofTokens (Pointer.tokens text) = text ∧
      W ∈ V.reporters ∧ W.pointer = i.pointer ∧ (∃ x rest, W.Violates x rest i.finding) ∧
      Lands mode s p (Pointer.tokens text) W) ∧
    (V.reporters.map pointer).Nodup ∧
    ∀ v verdict, V.run v = .ok verdict →
      (verdict.issues.map fun i => (i.pointer, i.path, i.message)).Nodup := by
  have hd := distinctNames_of_distinctKeys hs hV
  have hp := distinctPointers_compile hs hV
  refine ⟨fun v verdict hrun i hi => ?_, hp, fun v verdict hrun => ?_⟩
  · obtain ⟨o, hcheck⟩ := exists_check_of_run hrun
    obtain ⟨W, hW, hpointer, hviolates⟩ := (reports_of_check hd hcheck).exists_reporter i hi
    obtain ⟨tokens, hlands⟩ := exists_lands_compile hs hV hW
    have htokens : Pointer.tokens (Pointer.ofTokens tokens) = tokens := Pointer.tokens_ofTokens tokens
    refine ⟨Pointer.ofTokens tokens, W, ?_, by rw [htokens], hW, hpointer, hviolates, by rwa [htokens]⟩
    rw [← hpointer, hlands.pointer_eq]
  · obtain ⟨o, hcheck⟩ := exists_check_of_run hrun
    exact (reports_of_check hd hcheck).nodup_keys hd hp

end

/-- An object whose property `a/b` is a number or a text, or a text. -/
def slashedChoice : Value :=
  .object [(.text "type", .list [.text "object", .text "string"]), (.text "properties", .object [
    (.text "a/b", .object [(.text "enum", .list [.int 1, .text "x"])]),
    (.text "~1", .bool false)])]

theorem compile_pointers_slashedChoice : ∃ V issues, compile slashedChoice .strip "#" = .ok V ∧
    V.run (.object [(.text "a/b", .null), (.text "~1", .null)]) = .ok (.rejected issues) ∧
    (Issue.allOf issues).map Issue.pointer = ["#/type", "#/type/0/properties/a~1b",
      "#/type/0/properties/a~1b/enum/0", "#/type/0/properties/a~1b/enum/1",
      "#/type/0/properties/~01", "#/type/1"] ∧
    slashedChoice.resolve (Pointer.tokens "/type/0/properties/a~1b/enum/1") = some (.text "x") ∧
    slashedChoice.resolve (Pointer.tokens "/type/0/properties/~01") = some (.bool false) ∧
    (∀ i ∈ Issue.allOf issues, ∃ text W, i.pointer = "#" ++ text ∧ W.pointer = i.pointer ∧
      Lands .strip slashedChoice "#" (Pointer.tokens text) W) ∧
    (V.reporters.map pointer).Nodup := by
  let V : Validator := .union "#/type" [
    .object "#/type/0" [("a/b", .union "#/type/0/properties/a~1b" [
        .literal "#/type/0/properties/a~1b/enum/0" (.int 1),
        .literal "#/type/0/properties/a~1b/enum/1" (.text "x")]),
      ("~1", .never "#/type/0/properties/~01")] [] .strip,
    .text "#/type/1" ⟨none, none, none, none, false⟩]
  let issues : List Issue := [.mk "#/type" [] (.noAlternative 2) [
    .mk "#/type/0/properties/a~1b" [.key "a/b"] (.noAlternative 2) [
      .mk "#/type/0/properties/a~1b/enum/0" [.key "a/b"] (.notExpected (.int 1)) [],
      .mk "#/type/0/properties/a~1b/enum/1" [.key "a/b"] (.notExpected (.text "x")) []],
    .mk "#/type/0/properties/~01" [.key "~1"] .nothingAllowed [],
    .mk "#/type/1" [] (.wrongKind "string" "object") []]]
  have hV : compile slashedChoice .strip "#" = .ok V := by cbv
  have hrun : V.run (.object [(.text "a/b", .null), (.text "~1", .null)]) = .ok (.rejected issues) := by cbv
  obtain ⟨hlocate, hdistinct, -⟩ := compile_pointers (by decide) hV
  refine ⟨V, issues, hV, hrun, by cbv, by cbv, by cbv, fun i hi => ?_, hdistinct⟩
  obtain ⟨text, W, hpointer, -, -, hW, -, hlands⟩ := hlocate _ _ hrun i hi
  exact ⟨text, W, hpointer, hW, hlands⟩

end SchemaGuard
