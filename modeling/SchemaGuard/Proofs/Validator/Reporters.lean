/-
  SchemaGuard — the nodes that report issues.

  `V.reporters` are the nodes of a tree that report issues of their own: all but
  those that accept everything and those that join two trees. Every issue is
  reported by one of them (`Reports.exists_reporter`); where their pointers are
  distinct, no two issues of a report are alike in pointer, path and message
  (`Reports.nodup_keys`).
-/
import SchemaGuard.Proofs.Validator.Messages
import SchemaGuard.Proofs.Validator.Reporting

namespace SchemaGuard

namespace Validator

/-! ## Reporting nodes -/

/-- Whether a node reports issues of its own. -/
def reports : Validator → Bool
  | any _ | both _ _ _ => false
  | _ => true

/-- The nodes of a tree that report issues, a node before those below it. -/
def reporters (V : Validator) : List Validator := V.nodes.filter reports

/-- No two reporting nodes have one pointer. -/
def DistinctPointers (V : Validator) : Prop := (V.reporters.map pointer).Nodup

theorem nodesAll_eq_flatMap (vs : List Validator) : nodesAll vs = vs.flatMap nodes := by
  induction vs with
  | nil => rfl
  | cons v vs ih => rw [nodesAll, ih, List.flatMap_cons]

theorem nodesProperties_eq_flatMap (ps : List (String × Validator)) :
    nodesProperties ps = (ps.map (·.2)).flatMap nodes := by
  induction ps with
  | nil => rfl
  | cons p ps ih => obtain ⟨name, v⟩ := p; rw [nodesProperties, ih, List.map_cons, List.flatMap_cons]

theorem nodes_eq (V : Validator) : V.nodes = V :: V.children.flatMap nodes := by
  cases V with
  | union p branches => rw [nodes, nodesAll_eq_flatMap]; rfl
  | both p left right => simp [nodes, children]
  | list p items rules => simp [nodes, children]
  | object p properties required closedness => rw [nodes, nodesProperties_eq_flatMap]; rfl
  | _ => rfl

theorem reporters_eq (V : Validator) :
    V.reporters = (if V.reports then [V] else []) ++ V.children.flatMap reporters := by
  rw [reporters, nodes_eq, List.filter_cons, List.filter_flatMap]
  split <;> rfl

theorem reporters_eq_cons {V : Validator} (h : V.reports) :
    V.reporters = V :: V.children.flatMap reporters := by
  rw [reporters_eq, if_pos h]; rfl

theorem mem_reporters_iff {V W : Validator} : W ∈ V.reporters ↔ W ∈ V.nodes ∧ W.reports :=
  List.mem_filter

theorem reporters_sublist_of_child {V c : Validator} (hc : c ∈ V.children) :
    c.reporters.Sublist V.reporters := by
  rw [reporters_eq V, List.flatMap_def]
  exact (List.sublist_flatten_of_mem (List.mem_map_of_mem hc)).trans (List.sublist_append_right _ _)

theorem DistinctPointers.child {V c : Validator} (h : V.DistinctPointers) (hc : c ∈ V.children) :
    c.DistinctPointers := ((reporters_sublist_of_child hc).map pointer).nodup h

/-- No node below a reporting node has its pointer. -/
theorem DistinctPointers.pointer_ne {V c W : Validator} (h : V.DistinctPointers) (hV : V.reports)
    (hc : c ∈ V.children) (hW : W ∈ c.reporters) : W.pointer ≠ V.pointer := by
  rw [DistinctPointers, reporters_eq_cons hV, List.map_cons, List.nodup_cons] at h
  intro heq
  exact h.1 (heq ▸ List.mem_map_of_mem (List.mem_flatMap.2 ⟨c, hc, hW⟩))

/-! ## Where reports come from -/

section
variable {V W c : Validator} {v x y : Value} {e : Edge} {es : List Edge} {rest : Path} {f : Finding}

theorem Violates.reports (h : W.Violates x rest f) : W.reports := by
  cases h <;> rfl

theorem Reaches.mem_nodes (h : V.Reaches v es W x) : W ∈ V.nodes := by
  induction h with
  | here => exact self_mem_nodes _
  | step hl _ ih => exact mem_nodes_iff.2 (Or.inr ⟨_, hl.mem_children, ih⟩)

theorem Reaches.mem_reporters (h : V.Reaches v es W x) (hv : W.Violates x rest f) : W ∈ V.reporters :=
  mem_reporters_iff.2 ⟨h.mem_nodes, hv.reports⟩

end

/-- One of the nodes reports an issue. -/
def Reported (nodes : List Validator) (i : Issue) : Prop :=
  ∃ W ∈ nodes, W.pointer = i.pointer ∧ ∃ x rest, W.Violates x rest i.finding

theorem Reported.mono {ns ms : List Validator} (h : ns ⊆ ms) {i : Issue} (hi : Reported ns i) :
    Reported ms i := by
  obtain ⟨W, hW, hreport⟩ := hi
  exact ⟨W, h hW, hreport⟩

mutual
/-- Every issue, at any depth, is reported by a node of the tree. -/
theorem Reports.exists_reporter {V : Validator} {v : Value} {path : Path} {issues : List Issue}
    (h : V.Reports v path issues) : ∀ i ∈ Issue.allOf issues, Reported V.reporters i :=
  match h with
  | .intro _ _ _ heach => heach.exists_reporter
theorem ReportsEach.exists_reporter {V : Validator} {v : Value} {path : Path} {found : List Flaw}
    {issues : List Issue} (h : V.ReportsEach v path found issues) :
    ∀ i ∈ Issue.allOf issues, Reported V.reporters i :=
  match h with
  | .nil => nofun
  | .plain hr hv _ hrest => fun i hi => by
    rcases Issue.mem_allOf_cons.1 hi with rfl | hi | hi
    · exact ⟨_, hr.mem_reporters hv, rfl, _, _, hv⟩
    · cases hi
    · exact hrest.exists_reporter i hi
  | .union hr hv hb hrest => fun i hi => by
    rcases Issue.mem_allOf_cons.1 hi with rfl | hi | hi
    · exact ⟨_, hr.mem_reporters hv, rfl, _, _, hv⟩
    · refine (hb.exists_reporter i hi).mono fun W hW => ?_
      obtain ⟨b, hb, hW⟩ := List.mem_flatMap.1 hW
      obtain ⟨hW, hreports⟩ := mem_reporters_iff.1 hW
      refine mem_reporters_iff.2 ⟨nodes_subset_of_mem_nodes hr.mem_nodes ?_, hreports⟩
      exact mem_nodes_iff.2 (Or.inr ⟨b, hb, hW⟩)
    · exact hrest.exists_reporter i hi
theorem ReportsBranches.exists_reporter {branches : List Validator} {x : Value} {path : Path}
    {causes : List Issue} (h : ReportsBranches branches x path causes) :
    ∀ i ∈ Issue.allOf causes, Reported (branches.flatMap reporters) i :=
  match h with
  | .nil => nofun
  | .cons hb _ hrest => fun i hi => by
    rw [Issue.allOf_append, List.mem_append] at hi
    rcases hi with hi | hi
    · exact (hb.exists_reporter i hi).mono (List.subset_append_left _ _)
    · exact (hrest.exists_reporter i hi).mono (List.subset_append_right _ _)
end

/-! ## No issue twice -/

theorem pointer_ne_of_both {p : String} {left right W W' : Validator}
    (h : (both p left right).DistinctPointers) (hW : W ∈ left.reporters) (hW' : W' ∈ right.reporters) :
    W.pointer ≠ W'.pointer := by
  rw [DistinctPointers, reporters_eq] at h
  simp only [reports, children, List.flatMap_cons, List.flatMap_nil, List.append_nil, List.map_append,
    List.nodup_append] at h
  exact h.2.1.2.2 _ (List.mem_map_of_mem hW) _ (List.mem_map_of_mem hW')

theorem eq_of_mem_of_fst_eq {properties : List (String × Validator)} (h : (properties.map (·.1)).Nodup)
    {name : String} {c c' : Validator} (hc : (name, c) ∈ properties) (hc' : (name, c') ∈ properties) :
    c = c' := congrArg Prod.snd (List.inj_on_of_nodup_map h hc hc' rfl)

section
variable {V W W' : Validator} {v x x' : Value} {es es' : List Edge} {rest rest' : Path} {f f' : Finding}

/-- Edges to nodes of one pointer, with one place, are the same. -/
theorem Leads.eq_of_steps_eq {e e' : Edge} {c c' : Validator} {y y' : Value} {path path' : Path}
    (hd : V.DistinctNames) (hp : V.DistinctPointers) (hl : V.Leads v e c y) (hW : W ∈ c.reporters)
    (hl' : V.Leads v e' c' y') (hW' : W' ∈ c'.reporters) (hpointer : W.pointer = W'.pointer)
    (hpath : e.steps ++ path = e'.steps ++ path') : e = e' ∧ c = c' ∧ y = y' := by
  cases hl with
  | left =>
    cases hl' with
    | left => exact ⟨rfl, rfl, rfl⟩
    | right => exact absurd hpointer (pointer_ne_of_both hp hW hW')
  | right =>
    cases hl' with
    | left => exact absurd hpointer.symm (pointer_ne_of_both hp hW' hW)
    | right => exact ⟨rfl, rfl, rfl⟩
  | item hxs hi =>
    cases hl' with
    | item hxs' hi' =>
      obtain ⟨hindex, -⟩ := List.cons.inj hpath
      obtain rfl := Step.index.inj hindex
      rw [hxs] at hxs'; cases hxs'
      rw [hi] at hi'; cases hi'
      exact ⟨rfl, rfl, rfl⟩
  | property hq hx =>
    cases hl' with
    | property hq' hx' =>
      obtain ⟨hname, -⟩ := List.cons.inj hpath
      obtain rfl := Step.key.inj hname
      obtain rfl := eq_of_mem_of_fst_eq hd.self hq hq'
      rw [hx] at hx'; cases hx'
      exact ⟨rfl, rfl, rfl⟩

/-- The pointer, the place and the message of a flaw tell which one it is. -/
theorem Reaches.flaw_eq (hd : V.DistinctNames) (hp : V.DistinctPointers) (hr : V.Reaches v es W x)
    (hv : W.Violates x rest f) (hr' : V.Reaches v es' W' x') (hv' : W'.Violates x' rest' f')
    (hpointer : W.pointer = W'.pointer)
    (hpath : es.flatMap Edge.steps ++ rest = es'.flatMap Edge.steps ++ rest')
    (hmessage : f.message = f'.message) : es = es' ∧ rest = rest' ∧ f = f' := by
  -- no node below has the pointer of the one above, so both ways end here or both go on
  induction hr generalizing es' with
  | here =>
    cases hr' with
    | here =>
      obtain rfl : rest = rest' := hpath
      exact ⟨rfl, rfl, hv.finding_eq_of_message_eq hv' hmessage⟩
    | step hl hr' =>
      exact absurd hpointer.symm (hp.pointer_ne hv.reports hl.mem_children (hr'.mem_reporters hv'))
  | @step V v e c y es W x hl hr ih =>
    cases hr' with
    | here => exact absurd hpointer (hp.pointer_ne hv'.reports hl.mem_children (hr.mem_reporters hv))
    | @step _ _ e' c' y' es' _ _ hl' hr' =>
      have hsame : e = e' ∧ c = c' ∧ y = y' := by
        have hsteps : e.steps ++ (es.flatMap Edge.steps ++ rest) =
            e'.steps ++ (es'.flatMap Edge.steps ++ rest') := by
          simpa using hpath
        exact hl.eq_of_steps_eq hd hp (hr.mem_reporters hv) hl' (hr'.mem_reporters hv') hpointer hsteps
      obtain ⟨rfl, rfl, rfl⟩ := hsame
      rw [List.flatMap_cons, List.flatMap_cons, List.append_assoc, List.append_assoc] at hpath
      obtain ⟨rfl, hrest⟩ := ih (hd.child hl.mem_children) (hp.child hl.mem_children) hv hr' hpointer
        (List.append_cancel_left hpath)
      exact ⟨rfl, hrest⟩

end

theorem ReportsEach.forall₂ {V : Validator} {v : Value} {path : Path} {found : List Flaw}
    {issues : List Issue} (h : V.ReportsEach v path found issues) :
    List.Forall₂ (fun a i => ∃ W x, V.Reaches v a.edges W x ∧ W.Violates x a.rest a.finding ∧
      i.pointer = W.pointer ∧ i.path = path ++ a.path ∧ i.finding = a.finding) found issues := by
  induction found generalizing issues with
  | nil => cases h; exact .nil
  | cons a found ih =>
    cases h with
    | plain hr hv _ h => exact .cons ⟨_, _, hr, hv, rfl, rfl, rfl⟩ (ih h)
    | union hr hv _ h => exact .cons ⟨_, _, hr, hv, rfl, rfl, rfl⟩ (ih h)

theorem nodup_map_of_forall₂ {α β γ : Type} {R : α → β → Prop} {key : β → γ} {xs : List α} {ys : List β}
    (h : List.Forall₂ R xs ys) (hxs : xs.Nodup)
    (hkey : ∀ x y x' y', R x y → R x' y' → key y = key y' → x = x') : (ys.map key).Nodup := by
  induction h with
  | nil => exact List.nodup_nil
  | @cons x y xs ys hxy hrest ih =>
    obtain ⟨hx, hxs⟩ := List.nodup_cons.1 hxs
    refine List.nodup_cons.2 ⟨fun hmem => ?_, ih hxs⟩
    obtain ⟨y', hy', heq⟩ := List.mem_map.1 hmem
    obtain ⟨x', hx', hxy'⟩ := forall₂_left hrest.flip hy'
    exact hx (hkey x y x' y' hxy hxy' heq.symm ▸ hx')

/-- No two issues of a report are alike in pointer, path and message. -/
theorem Reports.nodup_keys {V : Validator} (hd : V.DistinctNames) (hp : V.DistinctPointers) {v : Value}
    {path : Path} {issues : List Issue} (h : V.Reports v path issues) :
    (issues.map fun i => (i.pointer, i.path, i.message)).Nodup := by
  obtain ⟨found, hnodup, -, heach⟩ := h
  refine nodup_map_of_forall₂ heach.forall₂ hnodup ?_
  rintro ⟨es, rest, f⟩ i ⟨es', rest', f'⟩ i' ⟨W, x, hr, hv, hpointer, hpath, hfinding⟩
    ⟨W', x', hr', hv', hpointer', hpath', hfinding'⟩ hkey
  obtain ⟨hptr, hplace, hmessage⟩ : i.pointer = i'.pointer ∧ i.path = i'.path ∧ i.message = i'.message := by
    simpa using hkey
  rw [hpointer, hpointer'] at hptr
  rw [hpath, hpath'] at hplace
  rw [Issue.message, Issue.message, hfinding, hfinding'] at hmessage
  obtain ⟨rfl, rfl, rfl⟩ := hr.flaw_eq hd hp hv hr' hv' hptr (List.append_cancel_left hplace) hmessage
  rfl

end Validator

end SchemaGuard
