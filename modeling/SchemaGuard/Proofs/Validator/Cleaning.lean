/-
  SchemaGuard — what cleaning takes out, and that nothing depends on it.

  * `Accepts.isJson_and_le`: the cleaned copy of a value is the value without
    some fields; `Keeping.le_output`: without stripping nodes it has all fields;
  * `NumericSizes.settles`: checking ends in acceptance or rejection if the
    bounds are numbers;
  * `Accepts.between`: a value between an accepted one and its cleaned copy is
    accepted too, with a copy like that one if there are no unions.
-/
import SchemaGuard.Proofs.Validator.Settling
import SchemaGuard.Proofs.Value.Join
import SchemaGuard.Proofs.Value.SameData

namespace SchemaGuard

namespace Validator

open Value

/-! ## The cleaned copy -/

theorem elements?_eq_some_iff {v : Value} (hv : v.IsJson) {xs : List Value} :
    v.elements? = some xs ↔ v = .list xs := by
  cases v with
  | list items => simp [elements?]
  | tuple items => exact absurd hv not_isJson_tuple
  | _ => simp [elements?]

section
variable {required : List Value} {fields : Fields} {properties : List (String × Validator)}
  {out : Fields}

theorem nodup_keys_output (closedness : Closedness) (hp : (properties.map (·.1)).Nodup) (hf : fields.keys.Nodup)
    (h : AcceptsProperties required fields properties out) :
    (Fields.keys (out ++ kept properties closedness fields)).Nodup := by
  have hout : out.keys.Nodup := by
    refine h.keys_sublist.nodup ?_
    simpa [List.map_map, Function.comp_def] using hp.map fun _ _ => Scalar.text.inj
  have hkept : (Fields.keys (kept properties closedness fields)).Nodup := by
    unfold kept
    split
    · exact (List.filter_sublist.map _).nodup hf
    · exact List.nodup_nil
  rw [Fields.keys, List.map_append]
  refine hout.append hkept ?_
  intro k hk hk'
  obtain ⟨⟨_, y⟩, hy, rfl⟩ := List.mem_map.1 hk
  obtain ⟨g, hg, heq⟩ := List.mem_map.1 hk'
  obtain ⟨q, hq, hkq, -⟩ := h.exists_of_mem_out hy
  exact (mem_kept.1 hg).2.2 q hq (heq.trans hkq)

end

/-- The cleaned copy of JSON data is the data without some fields. -/
theorem Accepts.isJson_and_le {V : Validator} (hd : V.DistinctNames) {v o : Value} (hv : v.IsJson)
    (h : V.Accepts v o) : o.IsJson ∧ o ≤ v := by
  induction V generalizing v o with
  | any p => rw [accepts_any_iff] at h; subst h; exact ⟨hv, le_refl hv⟩
  | never p => exact absurd h not_accepts_never
  | literal p expected => obtain ⟨-, rfl⟩ := accepts_literal_iff.1 h; exact ⟨hv, le_refl hv⟩
  | options p choices => obtain ⟨-, rfl⟩ := accepts_options_iff.1 h; exact ⟨hv, le_refl hv⟩
  | kind p expected => obtain ⟨-, rfl⟩ := accepts_kind_iff.1 h; exact ⟨hv, le_refl hv⟩
  | text p rules => obtain ⟨s, rfl, -, rfl⟩ := accepts_text_iff.1 h; exact ⟨hv, le_refl hv⟩
  | number p rules => obtain ⟨n, rfl, -, -, rfl⟩ := accepts_number_iff.1 h; exact ⟨hv, le_refl hv⟩
  | union p branches ih =>
    obtain ⟨before, b, after, rfl, -, hb⟩ := accepts_union_iff.1 h
    have hmem : b ∈ before ++ b :: after := by simp
    exact ih b hmem (hd.child hmem) hv hb
  | both p left right ihl ihr =>
    obtain ⟨l, r, hl, hr, rfl⟩ := accepts_both_iff.1 h
    obtain ⟨hlj, hlv⟩ := ihl (hd.child (by simp [children])) hv hl
    obtain ⟨hrj, hrv⟩ := ihr (hd.child (by simp [children])) hv hr
    exact ⟨isJson_merge hlj hrj, merge_le hlj hrj hlv hrv⟩
  | list p items rules ih =>
    obtain ⟨xs, ys, hxs, hacc, -, -, rfl⟩ := accepts_list_iff.1 h
    obtain rfl := (elements?_eq_some_iff hv).1 hxs
    rw [isJson_list] at hv
    have hitems : List.Forall₂ (fun y x => y.IsJson ∧ y ≤ x) ys xs :=
      (((List.forall₂_and_left _ _).2 ⟨hv, hacc⟩).imp fun x y h =>
        ih (hd.child (by simp [children])) h.1 h.2).flip
    obtain ⟨hys, hle⟩ := (List.forall₂_and_left _ _).1 hitems
    exact ⟨isJson_list.2 hys, list_le_list.2 hle⟩
  | object p properties required closedness ih =>
    obtain ⟨fields, out, rfl, hacc, -, rfl⟩ := accepts_object_iff.1 h
    obtain ⟨hnodup, htext, hparts⟩ := isJson_object.1 hv
    have hfield : ∀ f ∈ out ++ kept properties closedness fields,
        f.1.isText ∧ f.2.IsJson ∧ ∃ x, List.lookup f.1 fields = some x ∧ f.2 ≤ x := by
      rintro ⟨k, y⟩ hf
      rcases List.mem_append.1 hf with hf | hf
      · obtain ⟨q, hq, rfl, x, hx, hy⟩ := hacc.exists_of_mem_out hf
        have hxj := hparts _ (Fields.mem_of_named? hx)
        obtain ⟨hyj, hyx⟩ := ih q hq (hd.child (List.mem_map_of_mem hq)) hxj hy
        exact ⟨rfl, hyj, x, by rwa [← Fields.named?_eq_lookup], hyx⟩
      · obtain ⟨-, hmem, -⟩ := mem_kept.1 hf
        exact ⟨htext _ (List.mem_map_of_mem hmem), hparts _ hmem, y,
          (Fields.lookup_eq_some_iff hnodup).2 hmem, le_refl (hparts _ hmem)⟩
    refine ⟨isJson_object.2 ⟨nodup_keys_output closedness hd.self hnodup hacc, ?_, fun f hf => (hfield f hf).2.1⟩,
      object_le_object.2 fun f hf => (hfield f hf).2.2⟩
    intro k hk
    obtain ⟨f, hf, rfl⟩ := List.mem_map.1 hk
    exact (hfield f hf).1

/-- Without stripping nodes the cleaned copy has all fields. -/
theorem Keeping.le_output {V : Validator} (hk : V.Keeping) (hd : V.DistinctNames) {v o : Value}
    (hv : v.IsJson) (h : V.Accepts v o) : v ≤ o := by
  induction V generalizing v o with
  | any p => rw [accepts_any_iff] at h; subst h; exact le_refl hv
  | never p => exact absurd h not_accepts_never
  | literal p expected => obtain ⟨-, rfl⟩ := accepts_literal_iff.1 h; exact le_refl hv
  | options p choices => obtain ⟨-, rfl⟩ := accepts_options_iff.1 h; exact le_refl hv
  | kind p expected => obtain ⟨-, rfl⟩ := accepts_kind_iff.1 h; exact le_refl hv
  | text p rules => obtain ⟨s, rfl, -, rfl⟩ := accepts_text_iff.1 h; exact le_refl hv
  | number p rules => obtain ⟨n, rfl, -, -, rfl⟩ := accepts_number_iff.1 h; exact le_refl hv
  | union p branches ih =>
    obtain ⟨before, b, after, rfl, -, hb⟩ := accepts_union_iff.1 h
    have hmem : b ∈ before ++ b :: after := by simp
    exact ih b hmem (hk.child hmem) (hd.child hmem) hv hb
  | both p left right ihl ihr =>
    obtain ⟨l, r, hl, hr, rfl⟩ := accepts_both_iff.1 h
    have hleft : left ∈ (both p left right).children := by simp [children]
    have hright : right ∈ (both p left right).children := by simp [children]
    have hlj := (hl.isJson_and_le (hd.child hleft) hv).1
    have hrj := (hr.isJson_and_le (hd.child hright) hv).1
    exact le_trans (ihl (hk.child hleft) (hd.child hleft) hv hl) (le_merge_left hlj hrj)
  | list p items rules ih =>
    obtain ⟨xs, ys, hxs, hacc, -, -, rfl⟩ := accepts_list_iff.1 h
    obtain rfl := (elements?_eq_some_iff hv).1 hxs
    rw [isJson_list] at hv
    have hitems : items ∈ (list p items rules).children := by simp [children]
    exact list_le_list.2 (((List.forall₂_and_left _ _).2 ⟨hv, hacc⟩).imp fun x y h =>
      ih (hk.child hitems) (hd.child hitems) h.1 h.2)
  | object p properties required closedness ih =>
    obtain ⟨fields, out, rfl, hacc, hstrict, rfl⟩ := accepts_object_iff.1 h
    obtain ⟨hnodup, -, hparts⟩ := isJson_object.1 hv
    have hout := nodup_keys_output closedness hd.self hnodup hacc
    refine object_le_object.2 ?_
    rintro ⟨k, x⟩ hx
    by_cases hq : ∃ q ∈ properties, k = .text q.1
    · obtain ⟨q, hq, rfl⟩ := hq
      have hx' : Fields.named? fields q.1 = some x := by
        rwa [Fields.named?_eq_lookup, Fields.lookup_eq_some_iff hnodup]
      obtain ⟨y, hy, hmem⟩ := (hacc.of_mem hq).2 x hx'
      refine ⟨y, (Fields.lookup_eq_some_iff hout).2 (List.mem_append_left _ hmem), ?_⟩
      have hchild := List.mem_map_of_mem (f := Prod.snd) hq
      exact ih q hq (hk.child hchild) (hd.child hchild) (hparts _ hx) hy
    · push Not at hq
      have hpass : closedness = .passthrough := by
        cases closedness with
        | passthrough => rfl
        | strip => exact absurd rfl hk.self
        | strict => exact absurd (mem_undeclared.2 ⟨hx, hq⟩) (by simp [hstrict rfl])
      refine ⟨x, (Fields.lookup_eq_some_iff hout).2 ?_, le_refl (hparts _ hx)⟩
      exact List.mem_append_right _ (mem_kept.2 ⟨hpass, hx, hq⟩)

/-! ## Checking ends -/

theorem exists_sizeFindings {limit : Option Value} (h : ∀ b ∈ limit, (bound? b).isSome)
    (violates : Number → Bool) (finding : Value → Finding) :
    ∃ fs, sizeFindings limit violates finding = .ok fs := by
  unfold sizeFindings
  cases limit with
  | none => exact ⟨_, rfl⟩
  | some b =>
    obtain ⟨n, hn⟩ := Option.isSome_iff_exists.1 (h b rfl)
    simp [hn]

theorem exists_isFiniteNumber {v : Value} (hv : v.InRange) : ∃ b, isFiniteNumber v = .ok b := by
  have := hv v v.self_mem_parts
  unfold isFiniteNumber
  split <;> simp_all [isInRangeNode]

theorem TextRules.exists_findings {p : String} {rules : TextRules}
    (h : ∀ b ∈ (text p rules).sizeBounds, (bound? b).isSome) (s : String) :
    ∃ fs, rules.findings s = .ok fs := by
  simp only [sizeBounds, List.mem_append, Option.mem_toList, or_imp, forall_and] at h
  obtain ⟨short, hs⟩ := exists_sizeFindings h.1 ((Number.int s.length).lt ·) .tooShort
  obtain ⟨long, hl⟩ := exists_sizeFindings h.2 (·.lt (Number.int s.length)) .tooLong
  exact ⟨_, by simp only [TextRules.findings, hs, hl]; rfl⟩

theorem ListRules.exists_findings {p : String} {items : Validator} {rules : ListRules}
    (h : ∀ b ∈ (list p items rules).sizeBounds, (bound? b).isSome) (count : Nat) :
    ∃ fs, rules.findings count = .ok fs := by
  simp only [sizeBounds, List.mem_append, Option.mem_toList, or_imp, forall_and] at h
  obtain ⟨few, hf⟩ := exists_sizeFindings h.1 ((Number.int count).lt ·) .tooFewItems
  obtain ⟨many, hm⟩ := exists_sizeFindings h.2 (·.lt (Number.int count)) .tooManyItems
  exact ⟨_, by simp only [ListRules.findings, hf, hm]; rfl⟩

/-- With numbers as bounds a check ends in acceptance or rejection. -/
theorem NumericSizes.settles {V : Validator} (hn : V.NumericSizes) {v : Value} (hv : v.InRange) :
    V.Settles v := by
  induction V generalizing v with
  | any p => exact ⟨_, rfl⟩
  | never p => exact ⟨_, rfl⟩
  | literal p expected => rw [Settles, check]; split <;> exact ⟨_, rfl⟩
  | options p choices => rw [Settles, check]; split <;> (try split) <;> exact ⟨_, rfl⟩
  | kind p expected => rw [Settles, check]; split <;> exact ⟨_, rfl⟩
  | text p rules =>
    rw [Settles, check]
    split
    next => exact ⟨_, rfl⟩
    next s _ =>
      obtain ⟨fs, hfs⟩ := TextRules.exists_findings hn.self s
      rw [hfs]; exact ⟨_, rfl⟩
  | number p rules =>
    obtain ⟨b, hb⟩ := exists_isFiniteNumber hv
    rw [Settles, check, hb]
    cases b <;> cases v.number? <;> exact ⟨_, rfl⟩
  | union p branches ih =>
    have hbs : ∀ b ∈ branches, b.Settles v := fun b hb => ih b hb (hn.child hb) hv
    clear hn ih
    induction branches with
    | nil => exact settles_union_nil
    | cons b bs ihbs =>
      obtain ⟨hb, hbs⟩ := List.forall_mem_cons.1 hbs
      exact settles_union_cons_iff.2 ((settles_iff.1 hb).imp_right fun hr => ⟨hr, ihbs hbs⟩)
  | both p left right ihl ihr =>
    exact settles_both_iff.2
      ⟨ihl (hn.child (by simp [children])) hv, ihr (hn.child (by simp [children])) hv⟩
  | list p items rules ih =>
    refine settles_list_iff.2 fun xs hxs => ⟨fun x hx => ?_, ListRules.exists_findings hn.self _⟩
    have hparts : ∀ x ∈ xs, x.InRange := by
      cases v with
      | list ys => cases hxs; exact inRange_list.1 hv
      | tuple ys => cases hxs; exact inRange_tuple.1 hv
      | _ => cases hxs
    exact ih (hn.child (by simp [children])) (hparts x hx)
  | object p properties required closedness ih =>
    refine settles_object_iff.2 ?_
    rintro fields rfl q hq x hx
    exact ih q hq (hn.child (List.mem_map_of_mem hq))
      (inRange_object.1 hv _ (Fields.mem_of_named? hx))

/-! ## Between a value and its cleaned copy -/

theorem forall₂_between {A B C R : Value → Value → Prop}
    {xs ys ws : List Value} (hacc : List.Forall₂ A xs ys) (hyw : List.Forall₂ (· ≤ ·) ys ws)
    (hwx : List.Forall₂ R ws xs)
    (h : ∀ x ∈ xs, ∀ w ∈ ws, ∀ y, A x y → y ≤ w → R w x → ∃ y', B w y' ∧ C y' y) :
    ∃ ys', List.Forall₂ B ws ys' ∧ List.Forall₂ C ys' ys := by
  induction hacc generalizing ws with
  | nil => cases hwx; exact ⟨[], .nil, .nil⟩
  | cons hxy _ ih =>
    cases hwx with
    | cons hwx hwxs =>
      cases hyw with
      | cons hyw hyws =>
        obtain ⟨y', hb, hc⟩ := h _ (by simp) _ (by simp) _ hxy hyw hwx
        obtain ⟨ys', hbs, hcs⟩ := ih hyws hwxs fun x hx w hw => h x (by simp [hx]) w (by simp [hw])
        exact ⟨y' :: ys', .cons hb hbs, .cons hc hcs⟩

section
variable {required : List Value} {fields gs out : Fields} {properties : List (String × Validator)}
  (hgf : ∀ g ∈ gs, ∃ x, List.lookup g.1 fields = some x ∧ g.2 ≤ x)
include hgf

/-- Properties with values between accepted ones and their cleaned copies are
    accepted, if that is so for each of them. -/
theorem AcceptsProperties.between {C : Validator → Value → Value → Prop}
    (hacc : AcceptsProperties required fields properties out)
    (how : ∀ f ∈ out, ∃ z, List.lookup f.1 gs = some z ∧ f.2 ≤ z)
    (h : ∀ q ∈ properties, ∀ x y z, fields.named? q.1 = some x → gs.named? q.1 = some z →
      q.2.Accepts x y → y ≤ z → z ≤ x → ∃ y', q.2.Accepts z y' ∧ C q.2 y' y) :
    ∃ out', AcceptsProperties required gs properties out' ∧
      List.Forall₂ (fun f' f => f'.1 = f.1 ∧ ∃ q ∈ properties, C q.2 f'.2 f.2) out' out := by
  have hfields {name : String} {z : Value} (hz : gs.named? name = some z) :
      ∃ x, fields.named? name = some x ∧ z ≤ x := by
    rw [Fields.named?_eq_lookup]
    exact hgf _ (Fields.mem_of_named? hz)
  have hweaken {q : String × Validator} {qs : List (String × Validator)} {fs' fs : Fields}
      (hrel : List.Forall₂ (fun f' f => f'.1 = f.1 ∧ ∃ q ∈ qs, C q.2 f'.2 f.2) fs' fs) :
      List.Forall₂ (fun f' f => f'.1 = f.1 ∧ ∃ r ∈ q :: qs, C r.2 f'.2 f.2) fs' fs :=
    hrel.imp fun _ _ ⟨hk, r, hr, hc⟩ => ⟨hk, r, List.mem_cons_of_mem _ hr, hc⟩
  induction hacc with
  | nil => exact ⟨[], .nil, .nil⟩
  | @absent name _ _ _ hx hr _ ih =>
    obtain ⟨out', hout', hrel⟩ := ih how fun q hq => h q (List.mem_cons_of_mem _ hq)
    have hz : gs.named? name = none := by
      by_contra hz
      obtain ⟨z, hz⟩ := Option.ne_none_iff_exists'.1 hz
      obtain ⟨x, hx', -⟩ := hfields hz
      rw [hx] at hx'; cases hx'
    exact ⟨out', .absent hz hr hout', hweaken hrel⟩
  | @present name V _ _ x y hx hy _ ih =>
    obtain ⟨out', hout', hrel⟩ := ih (fun f hf => how f (List.mem_cons_of_mem _ hf))
      fun q hq => h q (List.mem_cons_of_mem _ hq)
    obtain ⟨z, hz, hyz⟩ := how _ List.mem_cons_self
    rw [← Fields.named?_eq_lookup] at hz
    obtain ⟨x', hx', hzx⟩ := hfields hz
    obtain rfl := Option.some.inj (hx.symm.trans hx')
    obtain ⟨y', hy', hc⟩ := h (name, V) List.mem_cons_self x y z hx hz hy hyz hzx
    exact ⟨_, .present hz hy' hout', .cons ⟨rfl, _, List.mem_cons_self, hc⟩ (hweaken hrel)⟩

theorem undeclared_eq_nil_of_le (h : undeclared properties fields = []) :
    undeclared properties gs = [] := by
  refine List.eq_nil_iff_forall_not_mem.2 fun g hg => ?_
  obtain ⟨hg, hq⟩ := mem_undeclared.1 hg
  obtain ⟨x, hx, -⟩ := hgf g hg
  have hmem : (g.1, x) ∈ undeclared properties fields :=
    mem_undeclared.2 ⟨Fields.mem_of_lookup hx, hq⟩
  rw [h] at hmem
  cases hmem

/-- The cleaned copies are alike if those of the properties are. -/
theorem alike_output {closedness : Closedness} {out' : Fields}
    (hout : (out ++ kept properties closedness fields).keys.Nodup)
    (hout' : (out' ++ kept properties closedness gs).keys.Nodup)
    (hrel : List.Forall₂ (fun f' f => f'.1 = f.1 ∧ f'.2.Alike f.2) out' out)
    (how : ∀ f ∈ kept properties closedness fields, ∃ z, List.lookup f.1 gs = some z ∧ f.2 ≤ z) :
    Value.Alike (.object (out' ++ kept properties closedness gs))
      (.object (out ++ kept properties closedness fields)) := by
  constructor
  · refine object_le_object.2 fun f' hf' => ?_
    rcases List.mem_append.1 hf' with hf' | hf'
    · obtain ⟨f, hf, hk, ha⟩ := forall₂_left hrel hf'
      rw [hk]
      exact ⟨f.2, (Fields.lookup_eq_some_iff hout).2 (List.mem_append_left _ hf), ha.1⟩
    · obtain ⟨hp, hg, hq⟩ := mem_kept.1 hf'
      obtain ⟨x, hx, hle⟩ := hgf _ hg
      exact ⟨x, (Fields.lookup_eq_some_iff hout).2
        (List.mem_append_right _ (mem_kept.2 ⟨hp, Fields.mem_of_lookup hx, hq⟩)), hle⟩
  · refine object_le_object.2 fun f hf => ?_
    rcases List.mem_append.1 hf with hf | hf
    · obtain ⟨f', hf', hk, ha⟩ := forall₂_left hrel.flip hf
      rw [← hk]
      exact ⟨f'.2, (Fields.lookup_eq_some_iff hout').2 (List.mem_append_left _ hf'), ha.2⟩
    · obtain ⟨hp, -, hq⟩ := mem_kept.1 hf
      obtain ⟨z, hz, hle⟩ := how f hf
      exact ⟨z, (Fields.lookup_eq_some_iff hout').2
        (List.mem_append_right _ (mem_kept.2 ⟨hp, Fields.mem_of_lookup hz, hq⟩)), hle⟩

end

/-- Whether elements repeat each other is seen in their canonical forms. -/
theorem repeats_congr {xs ys : List Value} (h : xs.map canonical = ys.map canonical)
    (hxs : repeats xs = []) : repeats ys = [] := by
  rw [repeats_eq_nil_iff] at hxs ⊢
  simp only [sameData_iff] at hxs ⊢
  rw [← List.pairwise_map (f := canonical) (R := (· ≠ ·))] at hxs ⊢
  rwa [← h]

/-- Alike elements repeat each other at the same places. -/
theorem repeats_eq_nil_of_alike {xs ws : List Value} (h : List.Forall₂ Alike ws xs)
    (hx : ∀ x ∈ xs, x.IsJson) (hw : ∀ w ∈ ws, w.IsJson) (hrep : repeats xs = []) : repeats ws = [] := by
  have hcanonical : ws.map canonical = xs.map canonical := by
    rw [← List.forall₂_eq_eq_eq, List.forall₂_map_left_iff, List.forall₂_map_right_iff]
    have hmem := (List.forall₂_and_left _ _).2 ⟨hw, h⟩
    exact ((List.forall₂_and_left _ _).2 ⟨hx, hmem.flip⟩).flip.imp fun w x hwx =>
      hwx.2.2.canonical_eq hwx.2.1 hwx.1
  exact repeats_congr hcanonical.symm hrep

/-- A value between an accepted one and its cleaned copy is accepted, if no list
    asks for unique elements or nothing is missing of the accepted value. -/
theorem Accepts.between {V : Validator} (hd : V.DistinctNames)
    (hn : V.NumericSizesInUnions) {v w o : Value} (hv : v.IsJson) (hr : v.InRange) (hw : w.IsJson)
    (h : V.Accepts v o) (how : o ≤ w) (hwv : w ≤ v) (hu : V.RepeatFree ∨ v ≤ w) :
    ∃ o', V.Accepts w o' ∧ (V.UnionFree → o'.Alike o) := by
  induction V generalizing v w o with
  | any p =>
    rw [accepts_any_iff] at h; subst h
    exact ⟨w, accepts_any_iff.2 rfl, fun _ => ⟨hwv, how⟩⟩
  | never p => exact absurd h not_accepts_never
  | literal p expected =>
    obtain ⟨hc, rfl⟩ := accepts_literal_iff.1 h
    have hwo : w.Alike o := ⟨hwv, how⟩
    exact ⟨w, accepts_literal_iff.2 ⟨(hwo.canonical_eq hw hv).trans hc, rfl⟩, fun _ => hwo⟩
  | options p choices =>
    obtain ⟨⟨s, hs, rfl⟩, rfl⟩ := accepts_options_iff.1 h
    rw [le_scalar_iff] at hwv; subst hwv
    exact ⟨_, h, fun _ => Alike.refl hv⟩
  | kind p expected =>
    obtain ⟨hk, rfl⟩ := accepts_kind_iff.1 h
    exact ⟨w, accepts_kind_iff.2 ⟨(kind_eq_of_le hwv).trans hk, rfl⟩, fun _ => ⟨hwv, how⟩⟩
  | text p rules =>
    obtain ⟨s, rfl, -, rfl⟩ := accepts_text_iff.1 h
    rw [le_scalar_iff] at hwv; subst hwv
    exact ⟨_, h, fun _ => Alike.refl hv⟩
  | number p rules =>
    obtain ⟨n, rfl, -, -, rfl⟩ := accepts_number_iff.1 h
    rw [le_scalar_iff] at hwv; subst hwv
    exact ⟨_, h, fun _ => Alike.refl hv⟩
  | union p branches ih =>
    obtain ⟨before, b, after, heq, -, hb⟩ := accepts_union_iff.1 h
    have hmem : b ∈ branches := by simp [heq]
    obtain ⟨o', hb', -⟩ := ih b hmem (hd.child hmem) (hn.child hmem) hv hr hw hb how hwv
      (hu.imp_left (·.child hmem))
    obtain ⟨o'', ho''⟩ := exists_accepts_union (p := p) (fun c hc =>
      NumericSizes.settles ((hn.self rfl).child hc) (hr.of_le hwv)) hmem hb'
    exact ⟨o'', ho'', fun hf => absurd rfl hf.self⟩
  | both p left right ihl ihr =>
    obtain ⟨l, r, hl, hr', rfl⟩ := accepts_both_iff.1 h
    have hleft : left ∈ (both p left right).children := by simp [children]
    have hright : right ∈ (both p left right).children := by simp [children]
    obtain ⟨hlj, hlv⟩ := hl.isJson_and_le (hd.child hleft) hv
    obtain ⟨hrj, hrv⟩ := hr'.isJson_and_le (hd.child hright) hv
    obtain ⟨l', hl', hla⟩ := ihl (hd.child hleft) (hn.child hleft) hv hr hw hl
      (le_trans (le_merge_left hlj hrj) how) hwv (hu.imp_left (·.child hleft))
    obtain ⟨r', hr'', hra⟩ := ihr (hd.child hright) (hn.child hright) hv hr hw hr'
      (le_trans (le_merge_right hlj hrj hlv hrv) how) hwv (hu.imp_left (·.child hright))
    refine ⟨_, accepts_both_iff.2 ⟨l', r', hl', hr'', rfl⟩, fun hf => ?_⟩
    obtain ⟨hlj', hlw⟩ := hl'.isJson_and_le (hd.child hleft) hw
    obtain ⟨hrj', hrw⟩ := hr''.isJson_and_le (hd.child hright) hw
    exact Alike.merge hlj' hlj hrj' hrj hlw hrw (hla (hf.child hleft)) (hra (hf.child hright))
  | list p items rules ih =>
    obtain ⟨xs, ys, hxs, hacc, hown, hrep, rfl⟩ := accepts_list_iff.1 h
    obtain rfl := (elements?_eq_some_iff hv).1 hxs
    obtain ⟨ws, rfl, hwx⟩ := le_list_iff.1 hwv
    rw [isJson_list] at hv hw
    rw [inRange_list] at hr
    rw [list_le_list] at how
    have hitems : items ∈ (list p items rules).children := by simp [children]
    have halikes : Value.list xs ≤ .list ws → List.Forall₂ Alike ws xs := fun hxw => by
      obtain ⟨_, ⟨⟩, hwx⟩ := alike_list_iff.1 ⟨list_le_list.2 hwx, hxw⟩
      exact hwx
    have hwx' : List.Forall₂ (fun w x => w ≤ x ∧ (items.RepeatFree ∨ x ≤ w)) ws xs := by
      rcases hu with hu | hxw
      · exact hwx.imp fun w x h => ⟨h, Or.inl (hu.child hitems)⟩
      · exact (halikes hxw).imp fun w x h => ⟨h.1, Or.inr h.2⟩
    obtain ⟨ys', haccs, halike⟩ := forall₂_between hacc how hwx' fun x hx w hw' y hxy hyw hwx =>
      ih (hd.child hitems) (hn.child hitems) (hv x hx) (hr x hx) (hw w hw') hxy hyw hwx.1 hwx.2
    have hrepeats : rules.uniqueItems → repeats ws = [] := fun hunique => by
      rcases hu with hu | hxw
      · exact absurd hunique hu.self
      · exact repeats_eq_nil_of_alike (halikes hxw) hv hw (hrep hunique)
    refine ⟨.list ys', accepts_list_iff.2 ⟨ws, ys', rfl, haccs, ?_, hrepeats, rfl⟩,
      fun hf => alike_list_iff.2 ⟨ys, rfl, halike.imp fun _ _ h => h (hf.child hitems)⟩⟩
    rwa [hwx.length_eq]
  | object p properties required closedness ih =>
    obtain ⟨fields, out, rfl, hacc, hstrict, rfl⟩ := accepts_object_iff.1 h
    obtain ⟨gs, rfl, hgf⟩ := le_object_iff.1 hwv
    obtain ⟨hnodup, -, hparts⟩ := isJson_object.1 hv
    obtain ⟨hnodup', -, hparts'⟩ := isJson_object.1 hw
    rw [object_le_object] at how
    obtain ⟨out', hacc', hrel⟩ := hacc.between (C := fun V y' y => V.UnionFree → y'.Alike y) hgf
      (fun f hf => how f (List.mem_append_left _ hf)) fun q hq x y z hx hz hxy hyz hzx => by
        have hchild := List.mem_map_of_mem (f := Prod.snd) hq
        have hmem := Fields.mem_of_named? hx
        refine ih q hq (hd.child hchild) (hn.child hchild) (hparts _ hmem)
          (inRange_object.1 hr _ hmem) (hparts' _ (Fields.mem_of_named? hz)) hxy hyz hzx ?_
        refine hu.imp (·.child hchild) fun hvw => ?_
        obtain ⟨z', hz', hxz⟩ := object_le_object.1 hvw _ hmem
        rw [← Fields.named?_eq_lookup, hz] at hz'
        cases hz'; exact hxz
    refine ⟨_, accepts_object_iff.2 ⟨gs, out', rfl, hacc', fun hs =>
      undeclared_eq_nil_of_le hgf (hstrict hs), rfl⟩, fun hf => ?_⟩
    have halike : List.Forall₂ (fun f' f => f'.1 = f.1 ∧ f'.2.Alike f.2) out' out :=
      hrel.imp fun f' f h => by
        obtain ⟨hk, q, hq, ha⟩ := h
        exact ⟨hk, ha (hf.child (List.mem_map_of_mem hq))⟩
    exact alike_output hgf (nodup_keys_output closedness hd.self hnodup hacc)
      (nodup_keys_output closedness hd.self hnodup' hacc') halike
      fun f hf => how f (List.mem_append_right _ hf)

end Validator

end SchemaGuard
