/-
  SchemaGuard — trees whose parts are replaced.

  A `Congruence` is a relation of trees that passes from the parts of unions, intersections,
  arrays and objects to the whole. Two of them compare validators on JSON data:

  * `V.Refines W`: `W` comes to a verdict wherever `V` does, and accepts what `V` accepts;
  * `V.Matches W`: both come to verdicts on the same data, and accept the same with the same
    outputs.

  Acceptance alone is not enough for the first one: where a branch of a union rejected, the
  branch in its place has to come to a verdict for the next branch to be tried.
-/
import SchemaGuard.Proofs.Validator.Gathering

namespace SchemaGuard

namespace Validator

open Value

/-- A transitive relation that holds of one tree at two places, and of trees with related parts. -/
structure Congruence (R : Validator → Validator → Prop) : Prop where
  trans {U V W : Validator} (h : R U V) (h' : R V W) : R U W
  moved (V : Validator) (p q : String) : R (V.mapPointers (p ++ ·)) (V.mapPointers (q ++ ·))
  union (p q : String) {Vs Ws : List Validator} (h : List.Forall₂ R Vs Ws) : R (.union p Vs) (.union q Ws)
  both (p q : String) {V W V' W' : Validator} (h : R V W) (h' : R V' W') :
    R (.both p V V') (.both q W W')
  list (p q : String) (rules : ListRules) {V W : Validator} (h : R V W) :
    R (.list p V rules) (.list q W rules)
  object (p q : String) (required : List Value) (closedness : Closedness)
    {Vs Ws : List (String × Validator)} (h : List.Forall₂ (fun a b => a.1 = b.1 ∧ R a.2 b.2) Vs Ws) :
    R (.object p Vs required closedness) (.object q Ws required closedness)

/-! ## Refinement -/

/-- On JSON data with integers in range, `W` settles what `V` settles, and accepts what `V`
    accepts. -/
structure Refines (V W : Validator) : Prop where
  settles {v : Value} (hv : v.IsJson) (hr : v.InRange) (h : V.Settles v) : W.Settles v
  accepts {v : Value} (hv : v.IsJson) (hr : v.InRange) (h : ∃ o, V.Accepts v o) : ∃ o, W.Accepts v o

/-- On JSON data with integers in range, both settle the same, and accept the same with the same
    outputs. -/
structure Matches (V W : Validator) : Prop where
  settles {v : Value} (hv : v.IsJson) (hr : v.InRange) : V.Settles v ↔ W.Settles v
  accepts {v : Value} (hv : v.IsJson) (hr : v.InRange) (o : Value) : V.Accepts v o ↔ W.Accepts v o

theorem exists_accepts_union_cons_iff {p : String} {b : Validator} {bs : List Validator} {v : Value} :
    (∃ o, (union p (b :: bs)).Accepts v o) ↔
      (∃ o, b.Accepts v o) ∨ b.Rejects v ∧ ∃ o, (union p bs).Accepts v o := by
  simp only [accepts_union_cons_iff, exists_or, exists_and_left]

/-- Objects with declarations of the same names leave the same undeclared. -/
theorem undeclared_congr {Vs Ws : List (String × Validator)}
    (h : List.Forall₂ (fun a b => a.1 = b.1) Vs Ws) (fields : Fields) :
    undeclared Vs fields = undeclared Ws fields := by
  have hany : ∀ f : Scalar × Value, (Vs.any fun a => f.1 == .text a.1) = Ws.any fun b => f.1 == .text b.1 :=
    fun f => by
      rw [Bool.eq_iff_iff, List.any_eq_true, List.any_eq_true]
      exact exists_mem_congr h fun a b hab => by rw [hab]
  simp only [undeclared, hany]

section
variable {V W V' W' : Validator} {Vs Ws : List Validator} {properties properties' : List (String × Validator)}
  {v : Value} {fields : Fields}

/-- A branch that comes first and what the branches after it do: a refined branch either accepts,
    or leaves the value to the same branches as before. -/
theorem Refines.first (h : V.Refines W) (hv : v.IsJson) (hr : v.InRange) {P Q : Prop} (hPQ : P → Q) :
    (∃ o, V.Accepts v o) ∨ V.Rejects v ∧ P → (∃ o, W.Accepts v o) ∨ W.Rejects v ∧ Q := by
  rintro (haccepts | ⟨hrejects, hP⟩)
  · exact Or.inl (h.accepts hv hr haccepts)
  · exact (settles_iff.1 (h.settles hv hr hrejects.settles)).imp_right fun hrejects' => ⟨hrejects', hPQ hP⟩

theorem refines_union (p q : String) (h : List.Forall₂ Refines Vs Ws) :
    (union p Vs).Refines (union q Ws) where
  settles := fun hv hr => by
    induction h with
    | nil => exact fun _ => settles_union_nil
    | cons hVW _ ih =>
      rw [settles_union_cons_iff, settles_union_cons_iff]
      exact hVW.first hv hr ih
  accepts := fun hv hr => by
    induction h with
    | nil =>
      rintro ⟨o, ho⟩
      obtain ⟨_ | _, b, after, ⟨⟩, -⟩ := accepts_union_iff.1 ho
    | cons hVW _ ih =>
      rw [exists_accepts_union_cons_iff, exists_accepts_union_cons_iff]
      exact hVW.first hv hr ih

theorem refines_both (p q : String) (h : V.Refines W) (h' : V'.Refines W') :
    (both p V V').Refines (both q W W') where
  settles := fun hv hr hs => by
    obtain ⟨hl, hr'⟩ := settles_both_iff.1 hs
    exact settles_both_iff.2 ⟨h.settles hv hr hl, h'.settles hv hr hr'⟩
  accepts := fun hv hr ⟨o, ho⟩ => by
    obtain ⟨l, r, hl, hr', -⟩ := accepts_both_iff.1 ho
    obtain ⟨l', hl'⟩ := h.accepts hv hr ⟨l, hl⟩
    obtain ⟨r', hr''⟩ := h'.accepts hv hr ⟨r, hr'⟩
    exact ⟨_, accepts_both_iff.2 ⟨l', r', hl', hr'', rfl⟩⟩

theorem refines_list (p q : String) (rules : ListRules) (h : V.Refines W) :
    (list p V rules).Refines (list q W rules) where
  settles := fun {v} hv hr hs => settles_list_iff.2 fun xs hxs => by
    obtain ⟨helements, hfindings⟩ := settles_list_iff.1 hs xs hxs
    obtain rfl := (elements?_eq_some_iff hv).1 hxs
    exact ⟨fun x hx => h.settles (isJson_list.1 hv x hx) (inRange_list.1 hr x hx) (helements x hx),
      hfindings⟩
  accepts := fun {v} hv hr ⟨o, ho⟩ => by
    obtain ⟨xs, ys, hxs, hys, hfindings, hunique, -⟩ := accepts_list_iff.1 ho
    obtain rfl := (elements?_eq_some_iff hv).1 hxs
    obtain ⟨zs, hzs⟩ : ∃ zs, List.Forall₂ W.Accepts xs zs := exists_forall₂ fun x hx => by
      obtain ⟨y, -, hy⟩ := forall₂_left hys hx
      exact h.accepts (isJson_list.1 hv x hx) (inRange_list.1 hr x hx) ⟨y, hy⟩
    exact ⟨_, accepts_list_iff.2 ⟨xs, zs, hxs, hzs, hfindings, hunique, rfl⟩⟩

section
variable (h : List.Forall₂ (fun a b => a.1 = b.1 ∧ a.2.Refines b.2) properties properties')
include h

theorem acceptsProperties_of_refines {required : List Value} (hv : IsJson (.object fields))
    (hr : InRange (.object fields)) {out : Fields} (hout : AcceptsProperties required fields properties out) :
    ∃ out', AcceptsProperties required fields properties' out' := by
  refine exists_acceptsProperties (forall₂_right h fun a ha b hab => ?_)
  obtain ⟨hname, hab⟩ := hab
  obtain ⟨habsent, hpresent⟩ := hout.of_mem ha
  rw [← hname]
  refine ⟨habsent, fun x hx => ?_⟩
  obtain ⟨y, hy, -⟩ := hpresent x hx
  exact hab.accepts (hv.named? hx) (hr.named? hx) ⟨y, hy⟩

theorem refines_object (p q : String) (required : List Value) (closedness : Closedness) :
    (object p properties required closedness).Refines (object q properties' required closedness) where
  settles := fun hv hr hs => settles_object_iff.2 fun fields heq => by
    subst heq
    refine forall₂_right h fun a ha b hab x hx => ?_
    rw [← hab.1] at hx
    exact hab.2.settles (hv.named? hx) (hr.named? hx) (settles_object_iff.1 hs fields rfl a ha x hx)
  accepts := fun hv hr ⟨o, ho⟩ => by
    obtain ⟨fields, out, rfl, hout, hclosed, -⟩ := accepts_object_iff.1 ho
    obtain ⟨out', hout'⟩ := acceptsProperties_of_refines h hv hr hout
    rw [undeclared_congr (h.imp fun _ _ hab => hab.1)] at hclosed
    exact ⟨_, accepts_object_iff.2 ⟨fields, out', rfl, hout', hclosed, rfl⟩⟩

end

theorem congruence_refines : Congruence Refines where
  trans := fun h h' =>
    ⟨fun hv hr hs => h'.settles hv hr (h.settles hv hr hs), fun hv hr ho => h'.accepts hv hr (h.accepts hv hr ho)⟩
  moved := fun V p q =>
    ⟨fun _ _ => by rw [settles_mapPointers_iff, settles_mapPointers_iff]; exact id,
      fun _ _ => by simp only [accepts_mapPointers_iff]; exact id⟩
  union := fun p q _ _ h => refines_union p q h
  both := fun p q _ _ _ _ h h' => refines_both p q h h'
  list := fun p q rules _ _ h => refines_list p q rules h
  object := fun p q required closedness _ _ h => refines_object h p q required closedness

/-! ## Matching -/

theorem Matches.rejects (h : V.Matches W) (hv : v.IsJson) (hr : v.InRange) :
    V.Rejects v ↔ W.Rejects v := by
  have hrejects : ∀ U : Validator, U.Rejects v ↔ U.Settles v ∧ ¬ ∃ o, U.Accepts v o := fun U => by
    refine ⟨fun hU => ⟨hU.settles, fun ⟨o, ho⟩ => ho.not_rejects hU⟩, fun ⟨hs, hnot⟩ => ?_⟩
    exact (settles_iff.1 hs).resolve_left hnot
  simp only [hrejects, h.settles hv hr, h.accepts hv hr]

theorem matches_union (p q : String) (h : List.Forall₂ Matches Vs Ws) :
    (union p Vs).Matches (union q Ws) where
  settles := fun hv hr => by
    induction h with
    | nil => exact iff_of_true settles_union_nil settles_union_nil
    | cons hVW _ ih =>
      rw [settles_union_cons_iff, settles_union_cons_iff, hVW.rejects hv hr, ih]
      simp only [hVW.accepts hv hr]
  accepts := fun hv hr o => by
    induction h with
    | nil => simp only [accepts_union_iff, List.nil_eq_append_iff, List.cons_ne_nil, and_false, false_and, exists_false]
    | cons hVW _ ih =>
      rw [accepts_union_cons_iff, accepts_union_cons_iff, hVW.rejects hv hr, hVW.accepts hv hr, ih]

theorem matches_both (p q : String) (h : V.Matches W) (h' : V'.Matches W') :
    (both p V V').Matches (both q W W') where
  settles := fun hv hr => by
    rw [settles_both_iff, settles_both_iff, h.settles hv hr, h'.settles hv hr]
  accepts := fun hv hr o => by
    simp only [accepts_both_iff, h.accepts hv hr, h'.accepts hv hr]

theorem matches_list (p q : String) (rules : ListRules) (h : V.Matches W) :
    (list p V rules).Matches (list q W rules) where
  settles := fun {v} hv hr => by
    rw [settles_list_iff, settles_list_iff]
    refine forall₂_congr fun xs hxs => and_congr_left' (forall₂_congr fun x hx => ?_)
    obtain rfl := (elements?_eq_some_iff hv).1 hxs
    exact h.settles (isJson_list.1 hv x hx) (inRange_list.1 hr x hx)
  accepts := fun {v} hv hr o => by
    rw [accepts_list_iff, accepts_list_iff]
    refine exists₂_congr fun xs ys => and_congr_right fun hxs => and_congr_left' ?_
    obtain rfl := (elements?_eq_some_iff hv).1 hxs
    have helement : ∀ x ∈ xs, ∀ y, V.Accepts x y ↔ W.Accepts x y := fun x hx y =>
      h.accepts (isJson_list.1 hv x hx) (inRange_list.1 hr x hx) y
    constructor
    · exact fun hys => ((List.forall₂_and_left _ _).2 ⟨helement, hys⟩).imp fun x y hxy => (hxy.1 y).1 hxy.2
    · exact fun hys => ((List.forall₂_and_left _ _).2 ⟨helement, hys⟩).imp fun x y hxy => (hxy.1 y).2 hxy.2

/-- Properties whose trees accept what is there with the same outputs. -/
theorem AcceptsProperties.replace {required : List Value} {out : Fields}
    (hout : AcceptsProperties required fields properties out)
    (h : List.Forall₂ (fun a b => a.1 = b.1 ∧ ∀ x, fields.named? a.1 = some x →
      ∀ y, a.2.Accepts x y → b.2.Accepts x y) properties properties') :
    AcceptsProperties required fields properties' out := by
  induction hout generalizing properties' with
  | nil => cases h; exact .nil
  | absent hx hrequired _ ih =>
    obtain ⟨⟨name, W⟩, rest, ⟨⟨⟩, -⟩, hrest, rfl⟩ := List.forall₂_cons_left_iff.1 h
    exact .absent hx hrequired (ih hrest)
  | present hx hy _ ih =>
    obtain ⟨⟨name, W⟩, rest, ⟨⟨⟩, hab⟩, hrest, rfl⟩ := List.forall₂_cons_left_iff.1 h
    exact .present hx (hab _ hx _ hy) (ih hrest)

section
variable (h : List.Forall₂ (fun a b => a.1 = b.1 ∧ a.2.Matches b.2) properties properties')
include h

theorem acceptsProperties_matches_iff {required : List Value} (hv : IsJson (.object fields))
    (hr : InRange (.object fields)) {out : Fields} :
    AcceptsProperties required fields properties out ↔ AcceptsProperties required fields properties' out := by
  have hpart : ∀ {a b : String × Validator}, a.2.Matches b.2 → ∀ x, fields.named? a.1 = some x →
      ∀ y, a.2.Accepts x y ↔ b.2.Accepts x y := fun hab x hx =>
    hab.accepts (hv.named? hx) (hr.named? hx)
  constructor
  · exact fun hout => hout.replace (h.imp fun a b hab => ⟨hab.1, fun x hx y => (hpart hab.2 x hx y).1⟩)
  · refine fun hout => hout.replace (h.flip.imp fun b a hab => ⟨hab.1.symm, fun x hx y => ?_⟩)
    rw [← hab.1] at hx
    exact (hpart hab.2 x hx y).2

theorem matches_object (p q : String) (required : List Value) (closedness : Closedness) :
    (object p properties required closedness).Matches (object q properties' required closedness) where
  settles := fun hv hr => by
    rw [settles_object_iff, settles_object_iff]
    refine forall₂_congr fun fields heq => forall_mem_congr h fun a b hab => ?_
    subst heq
    rw [hab.1]
    exact forall₂_congr fun x hx => hab.2.settles (hv.named? hx) (hr.named? hx)
  accepts := fun hv hr o => by
    rw [accepts_object_iff, accepts_object_iff]
    have hundeclared := undeclared_congr (h.imp fun _ _ hab => hab.1)
    refine exists₂_congr fun fields out => and_congr_right fun heq => ?_
    subst heq
    rw [acceptsProperties_matches_iff h hv hr]
    simp only [kept, hundeclared]

end

theorem congruence_matches : Congruence Matches where
  trans := fun h h' =>
    ⟨fun hv hr => (h.settles hv hr).trans (h'.settles hv hr),
      fun hv hr o => (h.accepts hv hr o).trans (h'.accepts hv hr o)⟩
  moved := fun V p q =>
    ⟨fun _ _ => by rw [settles_mapPointers_iff, settles_mapPointers_iff],
      fun _ _ o => by rw [accepts_mapPointers_iff, accepts_mapPointers_iff]⟩
  union := fun p q _ _ h => matches_union p q h
  both := fun p q _ _ _ _ h h' => matches_both p q h h'
  list := fun p q rules _ _ h => matches_list p q rules h
  object := fun p q required closedness _ _ h => matches_object h p q required closedness

end

end Validator

end SchemaGuard
