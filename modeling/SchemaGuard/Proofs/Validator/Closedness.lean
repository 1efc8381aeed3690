/-
  SchemaGuard — the same tree under other closedness modes.

  `V.withModes f` is `V` with `f` applied to the closedness of every object node.

  * `issues_withModes`: as long as strict nodes stay strict and no other node
    becomes strict, checks find the same issues and end in the same faults;
  * `Accepts.le_withModes`: with more nodes that keep undeclared properties, the
    cleaned copy has more fields;
  * `Settles.of_withModes`, `exists_accepts_of_withModes`: what a tree accepts
    when some of its nodes are made strict, it accepts as it is.
-/
import SchemaGuard.Proofs.Validator.Cleaning

namespace SchemaGuard

namespace Validator

open Value

/-! ## Trees under other modes -/

mutual
/-- The tree with `f` applied to the closedness of every object node. -/
def withModes (f : Closedness → Closedness) : Validator → Validator
  | union p branches => union p (withModesAll f branches)
  | both p left right => both p (left.withModes f) (right.withModes f)
  | list p items rules => list p (items.withModes f) rules
  | object p properties required closedness =>
    object p (withModesProperties f properties) required (f closedness)
  | any p => any p
  | never p => never p
  | literal p expected => literal p expected
  | options p choices => options p choices
  | kind p expected => kind p expected
  | text p rules => text p rules
  | number p rules => number p rules
/-- The trees with `f` applied to the closedness of every object node. -/
def withModesAll (f : Closedness → Closedness) : List Validator → List Validator
  | [] => []
  | v :: vs => v.withModes f :: withModesAll f vs
/-- The trees of properties with `f` applied to the closedness of every object node. -/
def withModesProperties (f : Closedness → Closedness) :
    List (String × Validator) → List (String × Validator)
  | [] => []
  | (name, v) :: ps => (name, v.withModes f) :: withModesProperties f ps
end

theorem withModesAll_eq_map (f : Closedness → Closedness) (vs : List Validator) :
    withModesAll f vs = vs.map (withModes f) := by
  induction vs with
  | nil => rfl
  | cons v vs ih => rw [withModesAll, ih, List.map_cons]

theorem withModesProperties_eq_map (f : Closedness → Closedness) (ps : List (String × Validator)) :
    withModesProperties f ps = ps.map (Prod.map id (withModes f)) := by
  induction ps with
  | nil => rfl
  | cons p ps ih => obtain ⟨name, v⟩ := p; rw [withModesProperties, ih, List.map_cons]; rfl

theorem children_withModes (f : Closedness → Closedness) (V : Validator) :
    (V.withModes f).children = V.children.map (withModes f) := by
  cases V with
  | union p branches => exact withModesAll_eq_map f branches
  | object p properties required closedness =>
    simp only [withModes, withModesProperties_eq_map, children, List.map_map]
    rfl
  | _ => rfl

theorem names_withModes (f : Closedness → Closedness) (V : Validator) :
    (V.withModes f).names = V.names := by
  cases V with
  | object p properties required closedness =>
    simp only [withModes, withModesProperties_eq_map, names, List.map_map]
    rfl
  | _ => rfl

theorem distinctNames_withModes {V : Validator} (f : Closedness → Closedness) (hd : V.DistinctNames) :
    (V.withModes f).DistinctNames := by
  induction V using induction_children with
  | node V ih =>
    refine throughout_iff.2 ⟨?_, fun c hc => ?_⟩
    · rw [names_withModes]; exact hd.self
    · rw [children_withModes] at hc
      obtain ⟨W, hW, rfl⟩ := List.mem_map.1 hc
      exact ih W hW (hd.child hW)

/-- Modes applied one after the other. -/
theorem withModes_withModes (f g : Closedness → Closedness) (V : Validator) :
    (V.withModes f).withModes g = V.withModes (g ∘ f) := by
  induction V with
  | union p branches ih =>
    have hall : branches.map (withModes g ∘ withModes f) = branches.map (withModes (g ∘ f)) :=
      List.map_congr_left ih
    simp only [withModes, withModesAll_eq_map, List.map_map, hall]
  | both p left right ihl ihr => simp only [withModes, ihl, ihr]
  | list p items rules ih => simp only [withModes, ih]
  | object p properties required closedness ih =>
    have hall : properties.map (Prod.map id (withModes g) ∘ Prod.map id (withModes f)) =
        properties.map (Prod.map id (withModes (g ∘ f))) :=
      List.map_congr_left fun q hq => Prod.ext rfl (ih q hq)
    simp only [withModes, withModesProperties_eq_map, List.map_map, hall, Function.comp_apply]
  | _ => rfl

theorem undeclared_withModes (f : Closedness → Closedness) (properties : List (String × Validator))
    (fields : Fields) :
    undeclared (properties.map (Prod.map id (withModes f))) fields = undeclared properties fields := by
  unfold undeclared
  simp only [List.any_map]
  rfl

/-! ## The same issues -/

/-- Two checks that find the same issues, or end in the same fault. -/
def SameIssues (x y : Outcome) : Prop := x.map Prod.snd = y.map Prod.snd

theorem sameIssues_iff {x y : Outcome} : SameIssues x y ↔
    (∃ e, x = .error e ∧ y = .error e) ∨ ∃ o o' is, x = .ok (o, is) ∧ y = .ok (o', is) := by
  unfold SameIssues
  rcases x with e | ⟨o, is⟩ <;> rcases y with e' | ⟨o', is'⟩ <;> simp [Except.map, eq_comm]

/-- What a union makes of its branches, apart from the accepted output. -/
def branchCauses : Value ⊕ List Issue → Option (List Issue) := Sum.elim (fun _ => none) some

section
variable {f : Closedness → Closedness} {path : Path} {v : Value}

theorem checkBranches_withModes {branches : List Validator}
    (h : ∀ b ∈ branches, SameIssues ((b.withModes f).check v path) (b.check v path)) :
    (checkBranches (branches.map (withModes f)) v path).map branchCauses =
      (checkBranches branches v path).map branchCauses := by
  induction branches with
  | nil => rfl
  | cons b bs ih =>
    have hbs := ih fun b hb => h b (List.mem_cons_of_mem _ hb)
    rw [List.map_cons, checkBranches, checkBranches]
    refine map_bind_congr (h b List.mem_cons_self) ?_
    rintro ⟨o, is⟩ ⟨o', _⟩ ⟨⟩
    cases is with
    | nil => rfl
    | cons i is =>
      refine map_bind_congr hbs ?_
      rintro (o | cs) (o' | cs') hcs <;> cases hcs <;> rfl

theorem checkProperties_withModes {p : String} {required : List Value} {fields : Fields}
    {properties : List (String × Validator)}
    (h : ∀ q ∈ properties, ∀ x path, SameIssues ((q.2.withModes f).check x path) (q.2.check x path)) :
    (checkProperties p required (properties.map (Prod.map id (withModes f))) fields path).map Prod.snd =
      (checkProperties p required properties fields path).map Prod.snd := by
  induction properties with
  | nil => rfl
  | cons q qs ih =>
    obtain ⟨name, V⟩ := q
    have hqs := ih fun q hq => h q (List.mem_cons_of_mem _ hq)
    rw [List.map_cons, Prod.map, checkProperties, checkProperties, id]
    cases fields.named? name with
    | none =>
      refine map_bind_congr hqs ?_
      rintro ⟨out, is⟩ ⟨out', _⟩ ⟨⟩
      rfl
    | some x =>
      have hV : SameIssues ((V.withModes f).check x (path ++ [.key name]))
          (V.check x (path ++ [.key name])) := h (name, V) List.mem_cons_self x _
      refine map_bind_congr hV ?_
      rintro ⟨o, own⟩ ⟨o', _⟩ ⟨⟩
      refine map_bind_congr hqs ?_
      rintro ⟨out, is⟩ ⟨out', _⟩ ⟨⟩
      rfl

end

/-- **The modes of open objects do not show in issues.** -/
theorem issues_withModes {f : Closedness → Closedness} (hf : ∀ c, f c = .strict ↔ c = .strict)
    (V : Validator) (v : Value) (path : Path) :
    SameIssues ((V.withModes f).check v path) (V.check v path) := by
  induction V generalizing v path with
  | union p branches ih =>
    rw [withModes, withModesAll_eq_map, check, check, SameIssues, List.length_map]
    refine map_bind_congr (checkBranches_withModes fun b hb => ih b hb v path) ?_
    rintro (o | cs) (o' | cs') hcs <;> cases hcs <;> rfl
  | both p left right ihl ihr =>
    rw [withModes, check, check]
    refine map_bind_congr (ihl v path) ?_
    rintro ⟨lo, li⟩ ⟨lo', _⟩ ⟨⟩
    refine map_bind_congr (ihr v path) ?_
    rintro ⟨ro, ri⟩ ⟨ro', _⟩ ⟨⟩
    dsimp only
    split <;> rfl
  | list p items rules ih =>
    rw [withModes, check, check]
    split
    next => rfl
    next xs _ =>
      have hall : (xs.zipIdx.mapM fun e => (items.withModes f).check e.1 (path ++ [.index e.2])).map
          (List.map Prod.snd) =
          (xs.zipIdx.mapM fun e => items.check e.1 (path ++ [.index e.2])).map (List.map Prod.snd) := by
        rw [← mapM_map_outcome, ← mapM_map_outcome]
        exact congrArg (fun g => xs.zipIdx.mapM g) (funext fun e => ih e.1 _)
      refine map_bind_congr hall fun checked checked' hc => ?_
      have hissues : checked.flatMap (·.2) = checked'.flatMap (·.2) := by
        rw [List.flatMap_def, List.flatMap_def, hc]
      cases rules.findings xs.length with
      | error e => rfl
      | ok own => simp only [bind, Except.bind, Except.map, pure, Except.pure, hissues]
  | object p properties required closedness ih =>
    rw [withModes, withModesProperties_eq_map]
    cases v with
    | object fields =>
      rw [check, check]
      refine map_bind_congr (checkProperties_withModes fun q hq x path => ih q hq x path) ?_
      rintro ⟨out, is⟩ ⟨out', _⟩ ⟨⟩
      rw [undeclared_withModes]
      have hc := hf closedness
      cases closedness <;> cases hfc : f _ <;> simp only [hfc, reduceCtorEq, false_iff, iff_false,
        not_true_eq_false] at hc <;> dsimp only <;> (try split) <;> rfl
    | _ => rfl
  | _ => rfl

section
variable {f : Closedness → Closedness} (hf : ∀ c, f c = .strict ↔ c = .strict) {V : Validator}
  {v : Value}
include hf

theorem rejects_withModes_iff : (V.withModes f).Rejects v ↔ V.Rejects v := by
  unfold Rejects
  rcases sameIssues_iff.1 (issues_withModes hf V v []) with ⟨e, h₁, h₂⟩ | ⟨o, o', is, h₁, h₂⟩
  · simp [h₁, h₂]
  · simp [h₁, h₂]

theorem exists_accepts_withModes_iff :
    (∃ o, (V.withModes f).Accepts v o) ↔ ∃ o, V.Accepts v o := by
  unfold Accepts
  rcases sameIssues_iff.1 (issues_withModes hf V v []) with ⟨e, h₁, h₂⟩ | ⟨o, o', is, h₁, h₂⟩
  · simp [h₁, h₂]
  · simp [h₁, h₂]

theorem run_withModes_eq_rejected_iff {issues : List Issue} :
    (V.withModes f).run v = .ok (.rejected issues) ↔ V.run v = .ok (.rejected issues) := by
  rw [run_eq_rejected_iff, run_eq_rejected_iff]
  rcases sameIssues_iff.1 (issues_withModes hf V v []) with ⟨e, h₁, h₂⟩ | ⟨o, o', is, h₁, h₂⟩
  · simp [h₁, h₂]
  · simp [h₁, h₂]

end

/-! ## The cleaned copies -/

section
variable {f : Closedness → Closedness} {p : String} {v o o' : Value}

/-- A union comes to the same branch under either modes. -/
theorem Accepts.union_withModes (hf : ∀ c, f c = .strict ↔ c = .strict) {branches : List Validator}
    (hle : ∀ b ∈ branches, ∀ o o', b.Accepts v o → (b.withModes f).Accepts v o' → o ≤ o')
    (h : (union p branches).Accepts v o) (h' : (union p (branches.map (withModes f))).Accepts v o') :
    o ≤ o' := by
  induction branches with
  | nil =>
    obtain ⟨before, b, after, heq, -⟩ := accepts_union_iff.1 h
    simp at heq
  | cons b bs ih =>
    obtain ⟨hb, hbs⟩ := List.forall_mem_cons.1 hle
    rw [List.map_cons, accepts_union_cons_iff, rejects_withModes_iff hf] at h'
    -- a branch rejects under both modes or under none, so both unions end at the same branch
    rcases accepts_union_cons_iff.1 h with h | ⟨hr, h⟩
    · rcases h' with h' | ⟨hr, -⟩
      · exact hb o o' h h'
      · exact absurd hr h.not_rejects
    · rcases h' with h' | ⟨-, h'⟩
      · exact absurd ((rejects_withModes_iff hf).2 hr) h'.not_rejects
      · exact ih hbs h h'

theorem AcceptsProperties.withModes_le {required : List Value} {fields out out' : Fields}
    {properties : List (String × Validator)}
    (hle : ∀ q ∈ properties, ∀ x y y', fields.named? q.1 = some x → q.2.Accepts x y →
      (q.2.withModes f).Accepts x y' → y ≤ y')
    (h : AcceptsProperties required fields properties out)
    (h' : AcceptsProperties required fields (properties.map (Prod.map id (withModes f))) out') :
    List.Forall₂ (fun a b => a.1 = b.1 ∧ a.2 ≤ b.2) out out' := by
  induction h generalizing out' with
  | nil => cases h'; exact .nil
  | @absent name V rest out hx _ _ ih =>
    rcases h' with _ | ⟨-, -, h'⟩ | ⟨hx', -, -⟩
    · exact ih (fun q hq => hle q (List.mem_cons_of_mem _ hq)) h'
    · exact absurd (hx.symm.trans hx') nofun
  | @present name V rest out x y hx hy _ ih =>
    rcases h' with _ | ⟨hx', -, -⟩ | ⟨hx', hy', h'⟩
    · exact absurd (hx.symm.trans hx') nofun
    · obtain rfl := Option.some.inj (hx.symm.trans hx')
      exact .cons ⟨rfl, hle _ List.mem_cons_self x _ _ hx hy hy'⟩
        (ih (fun q hq => hle q (List.mem_cons_of_mem _ hq)) h')

theorem kept_withModes {properties : List (String × Validator)} {closedness : Closedness}
    {fields : Fields} (hkeep : f .passthrough = .passthrough) {g : Scalar × Value}
    (hg : g ∈ kept properties closedness fields) :
    g ∈ kept (properties.map (Prod.map id (withModes f))) (f closedness) fields := by
  unfold kept at hg ⊢
  split at hg
  next hc => rw [hc, hkeep, if_pos rfl, undeclared_withModes]; exact hg
  next => cases hg

/-- **The more nodes keep undeclared properties, the more the cleaned copy has.** -/
theorem Accepts.le_withModes (hf : ∀ c, f c = .strict ↔ c = .strict)
    (hkeep : f .passthrough = .passthrough) {V : Validator} (hd : V.DistinctNames)
    (hv : v.IsJson) (h : V.Accepts v o) (h' : (V.withModes f).Accepts v o') : o ≤ o' := by
  induction V generalizing v o o' with
  | union p branches ih =>
    rw [withModes, withModesAll_eq_map] at h'
    exact Accepts.union_withModes hf (fun b hb o o' => ih b hb (hd.child hb) hv) h h'
  | both p left right ihl ihr =>
    obtain ⟨l, r, hl, hr, rfl⟩ := accepts_both_iff.1 h
    obtain ⟨l', r', hl', hr', rfl⟩ := accepts_both_iff.1 h'
    have hleft : left ∈ (both p left right).children := by simp [children]
    have hright : right ∈ (both p left right).children := by simp [children]
    have hdl := hd.child hleft
    have hdr := hd.child hright
    obtain ⟨hlj, -⟩ := hl.isJson_and_le hdl hv
    obtain ⟨hrj, -⟩ := hr.isJson_and_le hdr hv
    obtain ⟨hlj', hlv⟩ := hl'.isJson_and_le (distinctNames_withModes f hdl) hv
    obtain ⟨hrj', hrv⟩ := hr'.isJson_and_le (distinctNames_withModes f hdr) hv
    -- a merge is the least copy that has both, so the larger one only has to have them
    have hll : l ≤ l'.merge r' := le_trans (ihl hdl hv hl hl') (le_merge_left hlj' hrj')
    have hrr : r ≤ l'.merge r' := le_trans (ihr hdr hv hr hr') (le_merge_right hlj' hrj' hlv hrv)
    exact merge_le hlj hrj hll hrr
  | list p items rules ih =>
    obtain ⟨xs, ys, hxs, hacc, -, -, rfl⟩ := accepts_list_iff.1 h
    obtain ⟨xs', ys', hxs', hacc', -, -, rfl⟩ := accepts_list_iff.1 h'
    obtain rfl := Option.some.inj (hxs.symm.trans hxs')
    obtain rfl := (elements?_eq_some_iff hv).1 hxs
    rw [isJson_list] at hv
    have hitems : items ∈ (list p items rules).children := by simp [children]
    rw [list_le_list, List.forall₂_iff_get]
    refine ⟨hacc.length_eq.symm.trans hacc'.length_eq, fun i hi hi' => ?_⟩
    have hi₀ : i < xs.length := hacc.length_eq ▸ hi
    exact ih (hd.child hitems) (hv _ (List.getElem_mem hi₀)) (hacc.get hi₀ hi) (hacc'.get hi₀ hi')
  | object p properties required closedness ih =>
    rw [withModes, withModesProperties_eq_map] at h'
    have hout' : Value.IsJson o' := by
      refine (h'.isJson_and_le ?_ hv).1
      have := distinctNames_withModes f hd
      rwa [withModes, withModesProperties_eq_map] at this
    obtain ⟨fields, out, rfl, hacc, -, rfl⟩ := accepts_object_iff.1 h
    obtain ⟨_, out', ⟨⟩, hacc', -, rfl⟩ := accepts_object_iff.1 h'
    obtain ⟨hnodup, -, -⟩ := isJson_object.1 hout'
    have hparts := (isJson_object.1 hv).2.2
    have hle := hacc.withModes_le (fun q hq x y y' hx => ih q hq (hd.child (List.mem_map_of_mem hq))
      (hparts _ (Fields.mem_of_named? hx))) hacc'
    refine object_le_object.2 fun g hg => ?_
    rcases List.mem_append.1 hg with hg | hg
    · obtain ⟨g', hg', hk, hgg⟩ := forall₂_left hle hg
      refine ⟨g'.2, (Fields.lookup_eq_some_iff hnodup).2 (List.mem_append_left _ ?_), hgg⟩
      rw [hk]; exact hg'
    · have hmem := (mem_kept.1 hg).2.1
      exact ⟨g.2, (Fields.lookup_eq_some_iff hnodup).2
        (List.mem_append_right _ (kept_withModes hkeep hg)), le_refl (hparts _ hmem)⟩
  | _ =>
    obtain rfl := h.output_eq h'
    exact le_refl (h.isJson_and_le hd hv).1

end

/-! ## Stricter trees -/

/-- **A stricter tree accepts no more**: what ends without a fault when some more
    nodes are strict also does so as the tree is, and with acceptance if it did. -/
theorem Settles.of_withModes {f : Closedness → Closedness} (hf : f .strict = .strict)
    {V : Validator} {v : Value} (h : (V.withModes f).Settles v) :
    V.Settles v ∧ ((∃ o, (V.withModes f).Accepts v o) → ∃ o, V.Accepts v o) := by
  induction V generalizing v with
  | union p branches ih =>
    rw [withModes, withModesAll_eq_map] at h ⊢
    induction branches with
    | nil => exact ⟨h, id⟩
    | cons b bs ihbs =>
      obtain ⟨hb, hbs⟩ := List.forall_mem_cons.1 ih
      rw [List.map_cons, settles_union_cons_iff] at h
      simp only [List.map_cons, settles_union_cons_iff, accepts_union_cons_iff]
      rcases h with hacc | ⟨hrej, h⟩
      · obtain ⟨o, ho⟩ := (hb hacc.choose_spec.settles).2 hacc
        exact ⟨Or.inl ⟨o, ho⟩, fun _ => ⟨o, Or.inl ho⟩⟩
      · obtain ⟨hset, hacc⟩ := ihbs hbs h
        -- what the stricter branch rejects, the branch as it is may accept
        rcases settles_iff.1 (hb hrej.settles).1 with ⟨o, ho⟩ | hr
        · exact ⟨Or.inl ⟨o, ho⟩, fun _ => ⟨o, Or.inl ho⟩⟩
        · refine ⟨Or.inr ⟨hr, hset⟩, ?_⟩
          rintro ⟨o, ho | ⟨-, ho⟩⟩
          · exact absurd hrej ho.not_rejects
          · obtain ⟨o', ho'⟩ := hacc ⟨o, ho⟩
            exact ⟨o', Or.inr ⟨hr, ho'⟩⟩
  | both p left right ihl ihr =>
    obtain ⟨hl, hr⟩ := settles_both_iff.1 h
    refine ⟨settles_both_iff.2 ⟨(ihl hl).1, (ihr hr).1⟩, ?_⟩
    rintro ⟨_, hacc⟩
    obtain ⟨l, r, hl', hr', -⟩ := accepts_both_iff.1 hacc
    obtain ⟨l', hl'⟩ := (ihl hl).2 ⟨l, hl'⟩
    obtain ⟨r', hr'⟩ := (ihr hr).2 ⟨r, hr'⟩
    exact ⟨_, accepts_both_iff.2 ⟨l', r', hl', hr', rfl⟩⟩
  | list p items rules ih =>
    rw [withModes, settles_list_iff] at h
    refine ⟨settles_list_iff.2 fun xs hxs => ?_, ?_⟩
    · obtain ⟨hall, hown⟩ := h xs hxs
      exact ⟨fun x hx => (ih (hall x hx)).1, hown⟩
    · rintro ⟨_, hacc⟩
      obtain ⟨xs, ys, hxs, hall, hown, hrep, -⟩ := accepts_list_iff.1 hacc
      obtain ⟨ys', hys'⟩ := exists_forall₂ (R := items.Accepts) fun x hx => by
        obtain ⟨y, -, hy⟩ := forall₂_left hall hx
        exact (ih hy.settles).2 ⟨y, hy⟩
      exact ⟨_, accepts_list_iff.2 ⟨xs, ys', hxs, hys', hown, hrep, rfl⟩⟩
  | object p properties required closedness ih =>
    rw [withModes, withModesProperties_eq_map] at h ⊢
    rw [settles_object_iff] at h
    refine ⟨settles_object_iff.2 fun fields hv q hq x hx => ?_, ?_⟩
    · exact (ih q hq (h fields hv _ (List.mem_map_of_mem hq) x hx)).1
    · rintro ⟨_, hacc⟩
      obtain ⟨fields, out, rfl, hprops, hstrict, -⟩ := accepts_object_iff.1 hacc
      rw [undeclared_withModes] at hstrict
      obtain ⟨hnone, hsome⟩ := exists_acceptsProperties_iff.1 ⟨out, hprops⟩
      obtain ⟨out', hout'⟩ := exists_acceptsProperties_iff.2
        ⟨fun q hq => hnone (q.1, q.2.withModes f) (List.mem_map_of_mem hq), fun q hq x hx => by
          obtain ⟨y, hy⟩ := hsome (q.1, q.2.withModes f) (List.mem_map_of_mem hq) x hx
          exact (ih q hq hy.settles).2 ⟨y, hy⟩⟩
      refine ⟨_, accepts_object_iff.2 ⟨fields, out', rfl, hout', fun hc => hstrict ?_, rfl⟩⟩
      rw [hc, hf]
  | _ => exact ⟨h, id⟩

end Validator

end SchemaGuard
