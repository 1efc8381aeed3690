/-
  SchemaGuard — validators that say the same.

  `V.Same W` says that two trees have one shape and that what their nodes expect,
  bound and declare is pairwise the same data, whatever the pointers and the order
  of declarations. `SameInstance v w` says that two instances are the same data.

  Main result: trees that say the same agree on such instances (`Same.agrees`), by
  induction on the trees with one `follows_…` for each kind of node. `Follows` is one
  half of agreement; a union needs the other half of its branches too, since what
  comes before the branch that accepts has to be rejected.
-/
import SchemaGuard.Proofs.Validator.Cleaning
import SchemaGuard.Proofs.Value.Canonical

namespace SchemaGuard

/-! ## Numbers of one normal form -/

namespace Number

variable {a a' b b' : Number}

theorem value?_eq_of_normal_eq (h : a.normal = b.normal) : a.value? = b.value? := by
  rw [← value?_normal, h, value?_normal]

theorem lt_congr (ha : a.normal = a'.normal) (hb : b.normal = b'.normal) : a.lt b = a'.lt b' := by
  rw [Bool.eq_iff_iff, lt_iff, lt_iff, value?_eq_of_normal_eq ha, value?_eq_of_normal_eq hb]

theorem le_congr (ha : a.normal = a'.normal) (hb : b.normal = b'.normal) : a.le b = a'.le b' := by
  rw [Bool.eq_iff_iff, le_iff, le_iff, value?_eq_of_normal_eq ha, value?_eq_of_normal_eq hb]

theorem isWhole_congr (h : a.normal = b.normal) : a.isWhole = b.isWhole := by
  rw [Bool.eq_iff_iff, isWhole_iff, isWhole_iff, value?_eq_of_normal_eq h]

end Number

theorem isFiniteNumber_eq_true_iff {n : Number} (h : Value.InRange (.number n)) :
    isFiniteNumber (.number n) = .ok true ↔ ∃ q : ℚ, n.value? = some (q : WithTop ℚ) := by
  cases n with
  | int k =>
    have hk := h _ (Value.self_mem_parts _)
    simp only [Value.isInRangeNode] at hk
    simp [isFiniteNumber, hk, Number.value?_int]
  | double d =>
    cases d with
    | finite negative e f =>
      simp [isFiniteNumber, Number.value?, Number.extent?, Double.scaled?, Extent.toLine]
    | infinite negative =>
      cases negative <;> simp [isFiniteNumber, Number.value?, Number.extent?, Extent.toLine]
    | nan label => simp [isFiniteNumber, Number.value?, Number.extent?]

/-! ## Rules -/

/-- Two rules for texts demand the same. -/
structure TextRules.Same (r s : TextRules) : Prop where
  minLength : r.minLength.map Value.canonical = s.minLength.map Value.canonical
  maxLength : r.maxLength.map Value.canonical = s.maxLength.map Value.canonical
  pattern : r.pattern = s.pattern
  dateTime : r.dateTime = s.dateTime

/-- Two rules for numbers demand the same. -/
structure NumberRules.Same (r s : NumberRules) : Prop where
  integer : r.integer = s.integer
  minimum : r.minimum.map Number.normal = s.minimum.map Number.normal
  exclusiveMinimum : r.exclusiveMinimum.map Number.normal = s.exclusiveMinimum.map Number.normal
  maximum : r.maximum.map Number.normal = s.maximum.map Number.normal
  exclusiveMaximum : r.exclusiveMaximum.map Number.normal = s.exclusiveMaximum.map Number.normal

/-- Two rules for lists demand the same. -/
structure ListRules.Same (r s : ListRules) : Prop where
  minItems : r.minItems.map Value.canonical = s.minItems.map Value.canonical
  maxItems : r.maxItems.map Value.canonical = s.maxItems.map Value.canonical
  uniqueItems : r.uniqueItems = s.uniqueItems

theorem TextRules.Same.symm {r s : TextRules} (h : r.Same s) : s.Same r :=
  ⟨h.minLength.symm, h.maxLength.symm, h.pattern.symm, h.dateTime.symm⟩

theorem NumberRules.Same.symm {r s : NumberRules} (h : r.Same s) : s.Same r :=
  ⟨h.integer.symm, h.minimum.symm, h.exclusiveMinimum.symm, h.maximum.symm, h.exclusiveMaximum.symm⟩

theorem ListRules.Same.symm {r s : ListRules} (h : r.Same s) : s.Same r :=
  ⟨h.minItems.symm, h.maxItems.symm, h.uniqueItems.symm⟩

theorem bound?_canonical (v : Value) : bound? v.canonical = (bound? v).map Number.normal := by
  cases v with
  | scalar s => cases s <;> rfl
  | _ => simp [Value.canonical, bound?]

open Validator

section
variable {violates violates' : Number → Bool}
  (hv : ∀ m n : Number, m.normal = n.normal → violates m = violates' n)
include hv

/-- A bound on a size is kept if the same bound is. -/
theorem sizeFindings_congr {a b : Option Value} {f g : Value → Finding}
    (h : a.map Value.canonical = b.map Value.canonical) (ha : sizeFindings a violates f = .ok []) :
    sizeFindings b violates' g = .ok [] := by
  cases b with
  | none => rfl
  | some w =>
    obtain ⟨v, rfl, hvw⟩ := Option.map_eq_some_iff.1 h
    have hbound := bound?_canonical v
    rw [hvw, bound?_canonical] at hbound
    unfold sizeFindings at ha ⊢
    cases hm : bound? v with
    | none => simp [hm] at ha
    | some m =>
      rw [hm, Option.map_some] at hbound
      obtain ⟨n, hn, hnm⟩ := Option.map_eq_some_iff.1 hbound
      simp only [hm, hn, Except.ok.injEq, findingIf_eq_nil_iff] at ha ⊢
      rw [← hv m n hnm.symm, ha]

theorem limit_congr {a b : Option Number} (h : a.map Number.normal = b.map Number.normal)
    (ha : ∀ m, a = some m → violates m = false) : ∀ n, b = some n → violates' n = false := by
  rintro n rfl
  obtain ⟨m, rfl, hmn⟩ := Option.map_eq_some_iff.1 h
  rw [← hv m n hmn, ha m rfl]

end

theorem TextRules.Same.findings {r r' : TextRules} (h : r.Same r') {s : String}
    (hs : r.findings s = .ok []) : r'.findings s = .ok [] := by
  rw [TextRules.findings_eq_ok_nil_iff] at hs ⊢
  obtain ⟨hshort, hlong, hpattern, hformat⟩ := hs
  refine ⟨sizeFindings_congr (fun m n hmn => Number.lt_congr rfl hmn) h.minLength hshort,
    sizeFindings_congr (fun m n hmn => Number.lt_congr hmn rfl) h.maxLength hlong, ?_, ?_⟩
  · rwa [← h.pattern]
  · rwa [← h.dateTime]

theorem NumberRules.Same.findings {r r' : NumberRules} (h : r.Same r') {m n : Number}
    (hmn : m.normal = n.normal) (hm : r.findings m = []) : r'.findings n = [] := by
  rw [NumberRules.findings_eq_nil_iff] at hm ⊢
  obtain ⟨hinteger, hmin, hemin, hmax, hemax⟩ := hm
  refine ⟨?_, limit_congr (fun _ _ => Number.lt_congr hmn) h.minimum hmin,
    limit_congr (fun _ _ => Number.le_congr hmn) h.exclusiveMinimum hemin,
    limit_congr (fun _ _ hab => Number.lt_congr hab hmn) h.maximum hmax,
    limit_congr (fun _ _ hab => Number.le_congr hab hmn) h.exclusiveMaximum hemax⟩
  rwa [← h.integer, ← Number.isWhole_congr hmn]

theorem ListRules.Same.findings {r r' : ListRules} (h : r.Same r') {count : Nat}
    (hc : r.findings count = .ok []) : r'.findings count = .ok [] := by
  rw [ListRules.findings_eq_ok_nil_iff] at hc ⊢
  exact ⟨sizeFindings_congr (fun m n hmn => Number.lt_congr rfl hmn) h.minItems hc.1,
    sizeFindings_congr (fun m n hmn => Number.lt_congr hmn rfl) h.maxItems hc.2⟩

/-- Two verdicts both accept, with outputs that are the same data, or both reject. -/
def Verdict.Agrees : Verdict → Verdict → Prop
  | .accepted o, .accepted o' => o.sameData o'
  | .rejected _, .rejected _ => True
  | _, _ => False

namespace Validator

open Value

/-! ## Instances -/

/-- Two instances are the same data. -/
structure SameInstance (v w : Value) : Prop where
  left : v.IsJson
  right : w.IsJson
  leftInRange : v.InRange
  rightInRange : w.InRange
  canonical_eq : v.canonical = w.canonical

section
variable {v w : Value}

theorem SameInstance.symm (h : SameInstance v w) : SameInstance w v :=
  ⟨h.right, h.left, h.rightInRange, h.leftInRange, h.canonical_eq.symm⟩

theorem SameInstance.exists_list {xs : List Value} (h : SameInstance (.list xs) w) :
    ∃ ys, w = .list ys ∧ List.Forall₂ SameInstance xs ys := by
  obtain ⟨ys, rfl, hxy⟩ := exists_list_of_canonical_eq h.right h.canonical_eq
  refine ⟨ys, rfl, List.forall₂_iff_get.2 ⟨hxy.length_eq, fun i hx hy => ?_⟩⟩
  exact ⟨isJson_list.1 h.left _ (List.getElem_mem _), isJson_list.1 h.right _ (List.getElem_mem _),
    inRange_list.1 h.leftInRange _ (List.getElem_mem _),
    inRange_list.1 h.rightInRange _ (List.getElem_mem _), hxy.get hx hy⟩

theorem SameInstance.exists_object {fs : Fields} (h : SameInstance (.object fs) w) :
    ∃ gs, w = .object gs := by
  obtain ⟨gs, rfl, -⟩ := exists_object_of_canonical_eq h.left h.right h.canonical_eq
  exact ⟨gs, rfl⟩

theorem SameInstance.exists_lookup {fs gs : Fields} (h : SameInstance (.object fs) (.object gs))
    {k : Scalar} {x : Value} (hx : List.lookup k fs = some x) :
    ∃ y, List.lookup k gs = some y ∧ SameInstance x y := by
  have hk := (canonical_object_eq_iff h.left h.right).1 h.canonical_eq k
  rw [hx, Option.map_some, eq_comm] at hk
  obtain ⟨y, hy, hyx⟩ := Option.map_eq_some_iff.1 hk
  have hx := Fields.mem_of_lookup hx
  have hy' := Fields.mem_of_lookup hy
  exact ⟨y, hy, (isJson_object.1 h.left).2.2 _ hx, (isJson_object.1 h.right).2.2 _ hy',
    inRange_object.1 h.leftInRange _ hx, inRange_object.1 h.rightInRange _ hy', hyx.symm⟩

end

/-! ## Trees -/

/-- Two trees have one shape, and their nodes say the same. -/
inductive Same : Validator → Validator → Prop
  | any (p q : String) : Same (.any p) (.any q)
  | never (p q : String) : Same (.never p) (.never q)
  | literal (p q : String) {v w : Value} (h : v.canonical = w.canonical) :
      Same (.literal p v) (.literal q w)
  | options (p q : String) (choices : List String) : Same (.options p choices) (.options q choices)
  | union (p q : String) {bs cs : List Validator} (hlen : bs.length = cs.length)
      (h : ∀ i (hb : i < bs.length) (hc : i < cs.length), Same bs[i] cs[i]) :
      Same (.union p bs) (.union q cs)
  | both (p q : String) {l l' r r' : Validator} (hl : Same l l') (hr : Same r r') :
      Same (.both p l r) (.both q l' r')
  /-- no number is of one of these kinds -/
  | kind (p q : String) {name : String} (h : name = "boolean" ∨ name = "null") :
      Same (.kind p name) (.kind q name)
  | text (p q : String) {rules rules' : TextRules} (h : rules.Same rules') :
      Same (.text p rules) (.text q rules')
  | number (p q : String) {rules rules' : NumberRules} (h : rules.Same rules') :
      Same (.number p rules) (.number q rules')
  | list (p q : String) {items items' : Validator} {rules rules' : ListRules} (hi : Same items items')
      (h : rules.Same rules') : Same (.list p items rules) (.list q items' rules')
  | object (p q : String) {ps qs : List (String × Validator)} {required : List Value}
      {closedness : Closedness} (hnames : ∀ name, name ∈ ps.map (·.1) ↔ name ∈ qs.map (·.1))
      (h : ∀ a ∈ ps, ∀ b ∈ qs, a.1 = b.1 → Same a.2 b.2) :
      Same (.object p ps required closedness) (.object q qs required closedness)

/-- What the first tree accepts of an instance, the second accepts of another one, and
    the outputs are the same data. -/
def Follows (V W : Validator) (v w : Value) : Prop :=
  ∀ o, V.Accepts v o → ∃ o', W.Accepts w o' ∧ o.canonical = o'.canonical

/-! ## Leaves -/

section
variable {p q : String} {v w : Value} (hs : SameInstance v w)
include hs

theorem follows_literal {e e' : Value} (h : e.canonical = e'.canonical) :
    (literal p e).Follows (literal q e') v w := by
  intro o ho
  obtain ⟨hv, rfl⟩ := accepts_literal_iff.1 ho
  have hw : w.canonical = e'.canonical := by rw [← hs.canonical_eq, hv, h]
  exact ⟨w, accepts_literal_iff.2 ⟨hw, rfl⟩, hs.canonical_eq⟩

theorem follows_options (choices : List String) :
    (options p choices).Follows (options q choices) v w := by
  intro o ho
  obtain ⟨⟨s, hmem, rfl⟩, rfl⟩ := accepts_options_iff.1 ho
  obtain rfl := eq_of_canonical_eq (s := .text s) nofun hs.canonical_eq
  exact ⟨_, accepts_options_iff.2 ⟨⟨s, hmem, rfl⟩, rfl⟩, rfl⟩

theorem follows_kind {name : String} (h : name = "boolean" ∨ name = "null") :
    (kind p name).Follows (kind q name) v w := by
  intro o ho
  obtain ⟨hk, rfl⟩ := accepts_kind_iff.1 ho
  have hscalar : ∃ s, o = .scalar s ∧ ∀ n, s ≠ .number n := by
    rcases h with rfl | rfl <;> unfold Value.kind at hk <;> split at hk <;> simp_all
  obtain ⟨s, rfl, hn⟩ := hscalar
  obtain rfl := eq_of_canonical_eq hn hs.canonical_eq
  exact ⟨_, accepts_kind_iff.2 ⟨hk, rfl⟩, rfl⟩

theorem follows_text {rules rules' : TextRules} (h : rules.Same rules') :
    (text p rules).Follows (text q rules') v w := by
  intro o ho
  obtain ⟨s, rfl, hf, rfl⟩ := accepts_text_iff.1 ho
  obtain rfl := eq_of_canonical_eq (s := .text s) nofun hs.canonical_eq
  exact ⟨_, accepts_text_iff.2 ⟨s, rfl, h.findings hf, rfl⟩, rfl⟩

theorem follows_number {rules rules' : NumberRules} (h : rules.Same rules') :
    (number p rules).Follows (number q rules') v w := by
  intro o ho
  obtain ⟨m, rfl, hm, hf, rfl⟩ := accepts_number_iff.1 ho
  obtain ⟨n, rfl, hmn⟩ := exists_number_of_canonical_eq hs.canonical_eq
  rw [isFiniteNumber_eq_true_iff hs.leftInRange, Number.value?_eq_of_normal_eq hmn,
    ← isFiniteNumber_eq_true_iff hs.rightInRange] at hm
  exact ⟨_, accepts_number_iff.2 ⟨n, rfl, hm, h.findings hmn hf, rfl⟩, hs.canonical_eq⟩

end

/-! ## Unions and intersections -/

theorem follows_union {p q : String} {v w : Value} {bs cs : List Validator}
    (h : List.Forall₂ (fun b c => b.Follows c v w ∧ c.Follows b w v) bs cs)
    (hs : ∀ c ∈ cs, c.Settles w) : (union p bs).Follows (union q cs) v w := by
  induction h with
  | nil =>
    intro o ho
    obtain ⟨before, b, after, heq, -⟩ := accepts_union_iff.1 ho
    simp at heq
  | @cons b c bs cs hbc _ ih =>
    obtain ⟨hc, hcs⟩ := List.forall_mem_cons.1 hs
    intro o ho
    rcases accepts_union_cons_iff.1 ho with hb | ⟨hb, hbs⟩
    · obtain ⟨o', ho', heq⟩ := hbc.1 o hb
      exact ⟨o', accepts_union_cons_iff.2 (Or.inl ho'), heq⟩
    · have hreject : c.Rejects w := by
        refine (settles_iff.1 hc).resolve_left ?_
        rintro ⟨o', ho'⟩
        obtain ⟨o'', ho'', -⟩ := hbc.2 o' ho'
        exact ho''.not_rejects hb
      obtain ⟨o', ho', heq⟩ := ih hcs o hbs
      exact ⟨o', accepts_union_cons_iff.2 (Or.inr ⟨hreject, ho'⟩), heq⟩

theorem follows_both {p q : String} {v w : Value} {l l' r r' : Validator} (hs : SameInstance v w)
    (hd : (both p l r).DistinctNames) (hd' : (both q l' r').DistinctNames)
    (hl : l.Follows l' v w) (hr : r.Follows r' v w) : (both p l r).Follows (both q l' r') v w := by
  intro o ho
  obtain ⟨x, y, hx, hy, rfl⟩ := accepts_both_iff.1 ho
  obtain ⟨x', hx', hxx⟩ := hl x hx
  obtain ⟨y', hy', hyy⟩ := hr y hy
  refine ⟨_, accepts_both_iff.2 ⟨x', y', hx', hy', rfl⟩, canonical_merge_eq ?_ ?_ ?_ ?_ hxx hyy⟩
  · exact (hx.isJson_and_le (hd.child (by simp [children])) hs.left).1
  · exact (hx'.isJson_and_le (hd'.child (by simp [children])) hs.right).1
  · exact (hy.isJson_and_le (hd.child (by simp [children])) hs.left).1
  · exact (hy'.isJson_and_le (hd'.child (by simp [children])) hs.right).1

/-! ## Lists -/

theorem exists_forall₂_of_follows {V W : Validator} {xs ws ys : List Value}
    (h : List.Forall₂ (V.Follows W) xs ws) (hys : List.Forall₂ V.Accepts xs ys) :
    ∃ zs, List.Forall₂ W.Accepts ws zs ∧
      List.Forall₂ (fun y z => y.canonical = z.canonical) ys zs := by
  induction h generalizing ys with
  | nil => cases hys; exact ⟨[], .nil, .nil⟩
  | cons hxw _ ih =>
    cases hys with
    | cons hy hys =>
      obtain ⟨z, hz, heq⟩ := hxw _ hy
      obtain ⟨zs, hzs, heqs⟩ := ih hys
      exact ⟨z :: zs, .cons hz hzs, .cons heq heqs⟩

theorem follows_list {p q : String} {v w : Value} {items items' : Validator}
    {rules rules' : ListRules} (hs : SameInstance v w) (h : rules.Same rules')
    (hi : ∀ x y, SameInstance x y → items.Follows items' x y) :
    (list p items rules).Follows (list q items' rules') v w := by
  intro o ho
  obtain ⟨xs, ys, hxs, hacc, hown, hrep, rfl⟩ := accepts_list_iff.1 ho
  obtain rfl := (elements?_eq_some_iff hs.left).1 hxs
  obtain ⟨ws, rfl, hxw⟩ := hs.exists_list
  obtain ⟨zs, hzs, heq⟩ := exists_forall₂_of_follows (hxw.imp hi) hacc
  have hcanonical : xs.map canonical = ws.map canonical := by
    rw [← List.forall₂_eq_eq_eq, List.forall₂_map_left_iff, List.forall₂_map_right_iff]
    exact hxw.imp fun _ _ h => h.canonical_eq
  refine ⟨.list zs, accepts_list_iff.2 ⟨ws, zs, rfl, hzs, ?_, ?_, rfl⟩, canonical_list_eq_iff.2 heq⟩
  · rw [← hxw.length_eq]
    exact h.findings hown
  · rw [← h.uniqueItems]
    exact fun hu => repeats_congr hcanonical (hrep hu)

/-! ## Objects -/

/-- What the cleaned copy of an object has under a key. -/
theorem lookup_output_eq_some_iff {required : List Value} {fields out : Fields}
    {properties : List (String × Validator)} (closedness : Closedness)
    (hp : (properties.map (·.1)).Nodup) (hf : fields.keys.Nodup)
    (h : AcceptsProperties required fields properties out) {k : Scalar} {y : Value} :
    List.lookup k (out ++ kept properties closedness fields) = some y ↔
      (∃ a ∈ properties, k = .text a.1 ∧ ∃ x, List.lookup k fields = some x ∧ a.2.Accepts x y) ∨
      closedness = .passthrough ∧ List.lookup k fields = some y ∧
        ∀ a ∈ properties, k ≠ .text a.1 := by
  rw [Fields.lookup_eq_some_iff (nodup_keys_output closedness hp hf h), List.mem_append, mem_kept,
    Fields.lookup_eq_some_iff hf]
  refine or_congr_left ⟨fun hk => ?_, ?_⟩
  · obtain ⟨a, ha, rfl, x, hx, hy⟩ := h.exists_of_mem_out hk
    exact ⟨a, ha, rfl, x, by rwa [← Fields.named?_eq_lookup], hy⟩
  · rintro ⟨a, ha, rfl, x, hx, hy⟩
    rw [← Fields.named?_eq_lookup] at hx
    obtain ⟨y', hy', hmem⟩ := (h.of_mem ha).2 x hx
    rwa [hy.output_eq hy']

section
variable {required : List Value} {closedness : Closedness} {fs gs : Fields}
  {ps qs : List (String × Validator)}

/-- Properties of the same names follow those of another object. -/
structure FollowsProperties (ps qs : List (String × Validator)) : Prop where
  names : ∀ name, name ∈ ps.map (·.1) ↔ name ∈ qs.map (·.1)
  follows : ∀ a ∈ ps, ∀ b ∈ qs, a.1 = b.1 → ∀ x y, SameInstance x y → a.2.Follows b.2 x y

theorem FollowsProperties.exists_left (h : FollowsProperties ps qs) {b : String × Validator}
    (hb : b ∈ qs) : ∃ a ∈ ps, a.1 = b.1 :=
  List.mem_map.1 ((h.names b.1).2 (List.mem_map_of_mem hb))

theorem FollowsProperties.exists_right (h : FollowsProperties ps qs) {a : String × Validator}
    (ha : a ∈ ps) : ∃ b ∈ qs, b.1 = a.1 :=
  List.mem_map.1 ((h.names a.1).1 (List.mem_map_of_mem ha))

theorem FollowsProperties.undeclared_eq_nil (h : FollowsProperties ps qs)
    (hs : SameInstance (.object fs) (.object gs)) (hu : undeclared ps fs = []) :
    undeclared qs gs = [] := by
  refine List.eq_nil_iff_forall_not_mem.2 fun g hg => ?_
  obtain ⟨hg, hqs⟩ := mem_undeclared.1 hg
  have hg' := (Fields.lookup_eq_some_iff (isJson_object.1 hs.right).1).2 hg
  obtain ⟨x, hx, -⟩ := hs.symm.exists_lookup hg'
  have hmem : (g.1, x) ∈ undeclared ps fs := by
    refine mem_undeclared.2 ⟨Fields.mem_of_lookup hx, fun a ha heq => ?_⟩
    obtain ⟨b, hb, hba⟩ := h.exists_right ha
    exact hqs b hb (by rw [hba]; exact heq)
  rw [hu] at hmem
  cases hmem

theorem FollowsProperties.exists_accepts (h : FollowsProperties ps qs)
    (hs : SameInstance (.object fs) (.object gs)) {out : Fields}
    (hout : AcceptsProperties required fs ps out) : ∃ out', AcceptsProperties required gs qs out' := by
  refine exists_acceptsProperties fun b hb => ?_
  obtain ⟨a, ha, hab⟩ := h.exists_left hb
  obtain ⟨hnone, hsome⟩ := hout.of_mem ha
  simp only [Fields.named?_eq_lookup, hab] at hnone hsome ⊢
  refine ⟨fun hy => hnone ?_, fun y hy => ?_⟩
  · rw [← Option.not_isSome_iff_eq_none, Option.isSome_iff_exists]
    rintro ⟨x, hx⟩
    obtain ⟨y, hy', -⟩ := hs.exists_lookup hx
    rw [hy] at hy'; cases hy'
  · obtain ⟨x, hx, hxy⟩ := hs.symm.exists_lookup hy
    obtain ⟨o, ho, -⟩ := hsome x hx
    obtain ⟨o', ho', -⟩ := h.follows a ha b hb hab x y hxy.symm o ho
    exact ⟨o', ho'⟩

/-- What the one cleaned copy has under a key, the other has too. -/
theorem FollowsProperties.exists_lookup_output (h : FollowsProperties ps qs)
    (hs : SameInstance (.object fs) (.object gs)) (hps : (ps.map (·.1)).Nodup)
    (hqs : (qs.map (·.1)).Nodup) {out out' : Fields} (hout : AcceptsProperties required fs ps out)
    (hout' : AcceptsProperties required gs qs out') {k : Scalar} {y : Value}
    (hk : List.lookup k (out ++ kept ps closedness fs) = some y) :
    ∃ z, List.lookup k (out' ++ kept qs closedness gs) = some z ∧ y.canonical = z.canonical := by
  have hf := (isJson_object.1 hs.left).1
  have hg := (isJson_object.1 hs.right).1
  simp only [lookup_output_eq_some_iff closedness hqs hg hout']
  rcases (lookup_output_eq_some_iff closedness hps hf hout).1 hk with
    ⟨a, ha, rfl, x, hx, hy⟩ | ⟨hpass, hx, hnot⟩
  · obtain ⟨b, hb, hba⟩ := h.exists_right ha
    obtain ⟨x', hx', hxx⟩ := hs.exists_lookup hx
    obtain ⟨z, hz, hyz⟩ := h.follows a ha b hb hba.symm x x' hxx y hy
    exact ⟨z, Or.inl ⟨b, hb, by rw [hba], x', hx', hz⟩, hyz⟩
  · obtain ⟨x', hx', hxx⟩ := hs.exists_lookup hx
    refine ⟨x', Or.inr ⟨hpass, hx', fun b hb heq => ?_⟩, hxx.canonical_eq⟩
    obtain ⟨a, ha, hab⟩ := h.exists_left hb
    exact hnot a ha (by rw [hab]; exact heq)

end

theorem map_canonical_eq {a b : Option Value}
    (hab : ∀ y, a = some y → ∃ z, b = some z ∧ y.canonical = z.canonical)
    (hba : ∀ z, b = some z → ∃ y, a = some y ∧ z.canonical = y.canonical) :
    a.map canonical = b.map canonical := by
  cases a with
  | some y => obtain ⟨z, rfl, hyz⟩ := hab y rfl; exact congrArg some hyz
  | none =>
    cases b with
    | none => rfl
    | some z => obtain ⟨y, hy, -⟩ := hba z rfl; cases hy

theorem follows_object {p q : String} {v w : Value} {ps qs : List (String × Validator)}
    {required : List Value} {closedness : Closedness} (hs : SameInstance v w)
    (hd : (object p ps required closedness).DistinctNames)
    (hd' : (object q qs required closedness).DistinctNames) (h : FollowsProperties ps qs)
    (h' : FollowsProperties qs ps) :
    (object p ps required closedness).Follows (object q qs required closedness) v w := by
  intro o ho
  obtain ⟨fs, out, rfl, hout, hstrict, rfl⟩ := accepts_object_iff.1 ho
  obtain ⟨gs, rfl⟩ := hs.exists_object
  obtain ⟨out', hout'⟩ := h.exists_accepts hs hout
  have ho' : (object q qs required closedness).Accepts (.object gs) _ :=
    accepts_object_iff.2 ⟨gs, out', rfl, hout', fun hc => h.undeclared_eq_nil hs (hstrict hc), rfl⟩
  refine ⟨_, ho', (canonical_object_eq_iff (ho.isJson_and_le hd hs.left).1
    (ho'.isJson_and_le hd' hs.right).1).2 fun k => map_canonical_eq (fun y hy => ?_) fun z hz => ?_⟩
  · exact h.exists_lookup_output hs hd.self hd'.self hout hout' hy
  · exact h'.exists_lookup_output hs.symm hd'.self hd.self hout' hout hz

/-! ## Agreement -/

/-- What makes checking end and keeps cleaned copies JSON data. -/
structure Sound (V : Validator) : Prop where
  distinctNames : V.DistinctNames
  numericSizes : V.NumericSizes

theorem Sound.child {V c : Validator} (h : V.Sound) (hc : c ∈ V.children) : c.Sound :=
  ⟨h.distinctNames.child hc, h.numericSizes.child hc⟩

/-- **Trees that say the same agree** on instances that are the same data. -/
theorem Same.agrees {V W : Validator} (h : V.Same W) (hV : V.Sound) (hW : W.Sound) {v w : Value}
    (hs : SameInstance v w) : V.Follows W v w ∧ W.Follows V w v := by
  induction h generalizing v w with
  | any p q =>
    simp only [Follows, accepts_any_iff]
    exact ⟨fun o ho => ⟨w, rfl, ho ▸ hs.canonical_eq⟩,
      fun o ho => ⟨v, rfl, ho ▸ hs.symm.canonical_eq⟩⟩
  | never p q => exact ⟨fun o ho => absurd ho not_accepts_never, fun o ho => absurd ho not_accepts_never⟩
  | literal p q he => exact ⟨follows_literal hs he, follows_literal hs.symm he.symm⟩
  | options p q choices => exact ⟨follows_options hs choices, follows_options hs.symm choices⟩
  | kind p q hname => exact ⟨follows_kind hs hname, follows_kind hs.symm hname⟩
  | text p q hr => exact ⟨follows_text hs hr, follows_text hs.symm hr.symm⟩
  | number p q hr => exact ⟨follows_number hs hr, follows_number hs.symm hr.symm⟩
  | @union p q bs cs hlen _ ih =>
    have hbc : List.Forall₂ (fun b c => b.Follows c v w ∧ c.Follows b w v) bs cs :=
      List.forall₂_iff_get.2 ⟨hlen, fun i hb hc =>
        ih i hb hc (hV.child (List.getElem_mem hb)) (hW.child (List.getElem_mem hc)) hs⟩
    constructor
    · exact follows_union hbc fun c hc => (hW.child hc).numericSizes.settles hs.rightInRange
    · exact follows_union (hbc.flip.imp fun _ _ h => h.symm) fun b hb =>
        (hV.child hb).numericSizes.settles hs.leftInRange
  | both p q _ _ ihl ihr =>
    have hl := ihl (hV.child (by simp [children])) (hW.child (by simp [children])) hs
    have hr := ihr (hV.child (by simp [children])) (hW.child (by simp [children])) hs
    exact ⟨follows_both hs hV.distinctNames hW.distinctNames hl.1 hr.1,
      follows_both hs.symm hW.distinctNames hV.distinctNames hl.2 hr.2⟩
  | list p q _ hr ih =>
    have hitems := fun x y => @ih (hV.child (by simp [children])) (hW.child (by simp [children])) x y
    exact ⟨follows_list hs hr fun x y hxy => (hitems x y hxy).1,
      follows_list hs.symm hr.symm fun x y hxy => (hitems y x hxy.symm).2⟩
  | @object p q ps qs required closedness hnames _ ih =>
    have hchild : ∀ a ∈ ps, ∀ b ∈ qs, a.1 = b.1 → ∀ x y, SameInstance x y →
        a.2.Follows b.2 x y ∧ b.2.Follows a.2 y x := fun a ha b hb hab x y hxy =>
      ih a ha b hb hab (hV.child (List.mem_map_of_mem ha)) (hW.child (List.mem_map_of_mem hb)) hxy
    have hps : FollowsProperties ps qs :=
      ⟨hnames, fun a ha b hb hab x y hxy => (hchild a ha b hb hab x y hxy).1⟩
    have hqs : FollowsProperties qs ps :=
      ⟨fun name => (hnames name).symm, fun b hb a ha hba x y hxy =>
        (hchild a ha b hb hba.symm y x hxy.symm).2⟩
    exact ⟨follows_object hs hV.distinctNames hW.distinctNames hps hqs,
      follows_object hs.symm hW.distinctNames hV.distinctNames hqs hps⟩

/-- So do their runs, which come to verdicts. -/
theorem Same.exists_run {V W : Validator} (h : V.Same W) (hV : V.Sound) (hW : W.Sound) {v w : Value}
    (hs : SameInstance v w) : ∃ x y, V.run v = .ok x ∧ W.run w = .ok y ∧ x.Agrees y := by
  obtain ⟨x, hx⟩ := settles_iff_run.1 (hV.numericSizes.settles hs.leftInRange)
  obtain ⟨y, hy⟩ := settles_iff_run.1 (hW.numericSizes.settles hs.rightInRange)
  obtain ⟨hVW, hWV⟩ := h.agrees hV hW hs
  refine ⟨x, y, hx, hy, ?_⟩
  cases x with
  | accepted o =>
    obtain ⟨o', ho', heq⟩ := hVW o (run_eq_accepted_iff.1 hx)
    rw [run_eq_accepted_iff.2 ho'] at hy
    cases hy
    exact (sameData_iff _ _).2 heq
  | rejected issues =>
    cases y with
    | rejected issues' => trivial
    | accepted o' =>
      obtain ⟨o, ho, -⟩ := hWV o' (run_eq_accepted_iff.1 hy)
      rw [run_eq_accepted_iff.2 ho] at hx
      cases hx

end Validator

end SchemaGuard
