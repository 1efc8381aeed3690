/-
  SchemaGuard — acceptance, node by node.

  `V.Accepts v o` says that `V` finds nothing wrong with `v` and cleans it to `o`;
  `V.Rejects v` that it finds something, `V.Settles v` that it comes to one of
  these ends, not to a fault. By `check_append` all three are independent of paths.
  For each kind of node an `accepts_…_iff` says what acceptance comes to;
  `AcceptsProperties` is that of the declared properties of an object.
-/
import SchemaGuard.Proofs.Validator.Relocation

namespace SchemaGuard

/-- The issues of a verdict. -/
def Verdict.issues : Verdict → List Issue
  | .accepted _ => []
  | .rejected issues => issues

namespace Validator

/-- Nothing is wrong with a value, and its cleaned copy is `o`. -/
def Accepts (V : Validator) (v o : Value) : Prop := V.check v [] = .ok (o, [])

/-- Something is wrong with a value. -/
def Rejects (V : Validator) (v : Value) : Prop := ∃ o i is, V.check v [] = .ok (o, i :: is)

/-- A value is accepted or rejected, without a fault. -/
def Settles (V : Validator) (v : Value) : Prop := ∃ outcome, V.check v [] = .ok outcome

theorem Accepts.settles {V : Validator} {v o : Value} (h : V.Accepts v o) : V.Settles v := ⟨_, h⟩

theorem Rejects.settles {V : Validator} {v : Value} (h : V.Rejects v) : V.Settles v := by
  obtain ⟨o, i, is, h⟩ := h; exact ⟨_, h⟩

theorem settles_iff {V : Validator} {v : Value} :
    V.Settles v ↔ (∃ o, V.Accepts v o) ∨ V.Rejects v := by
  constructor
  · rintro ⟨⟨o, is⟩, h⟩
    cases is with
    | nil => exact Or.inl ⟨o, h⟩
    | cons i is => exact Or.inr ⟨o, i, is, h⟩
  · rintro (⟨o, h⟩ | h)
    exacts [h.settles, h.settles]

theorem Accepts.not_rejects {V : Validator} {v o : Value} (h : V.Accepts v o) : ¬ V.Rejects v := by
  rintro ⟨o', i, is, h'⟩
  have := h.symm.trans h'
  cases this

theorem Accepts.output_eq {V : Validator} {v o o' : Value} (h : V.Accepts v o)
    (h' : V.Accepts v o') : o = o' := by
  have := h.symm.trans h'
  cases this; rfl

/-! ## Paths and whole instances -/

theorem check_eq_ok_nil_iff {V : Validator} {v o : Value} (path : Path) :
    V.check v path = .ok (o, []) ↔ V.Accepts v o := by
  have h := check_append V v path []
  rw [List.append_nil] at h
  rw [h, Accepts]
  rcases V.check v [] with f | ⟨o', is⟩ <;> simp [Except.map, moved]

theorem rejects_iff {V : Validator} {v : Value} (path : Path) :
    V.Rejects v ↔ ∃ o i is, V.check v path = .ok (o, i :: is) := by
  have h := check_append V v path []
  rw [List.append_nil] at h
  rw [h, Rejects]
  rcases V.check v [] with f | ⟨o', _ | ⟨i, is⟩⟩ <;> simp [Except.map, moved]

theorem settles_iff_check {V : Validator} {v : Value} (path : Path) :
    V.Settles v ↔ ∃ outcome, V.check v path = .ok outcome := by
  have h := check_append V v path []
  rw [List.append_nil] at h
  rw [h, Settles]
  rcases V.check v [] with f | outcome <;> simp [Except.map]

theorem run_eq_accepted_iff {V : Validator} {v o : Value} :
    V.run v = .ok (.accepted o) ↔ V.Accepts v o := by
  unfold run Accepts
  rcases V.check v [] with f | ⟨o', _ | ⟨i, is⟩⟩ <;>
    simp [bind, Except.bind, pure, Except.pure]

theorem run_eq_rejected_iff {V : Validator} {v : Value} {issues : List Issue} :
    V.run v = .ok (.rejected issues) ↔ issues ≠ [] ∧ ∃ o, V.check v [] = .ok (o, issues) := by
  unfold run
  rcases V.check v [] with f | ⟨o', _ | ⟨i, is⟩⟩ <;>
    simp [bind, Except.bind, pure, Except.pure]
  rintro rfl; simp

theorem exists_check_of_run {V : Validator} {v : Value} {verdict : Verdict}
    (h : V.run v = .ok verdict) : ∃ o, V.check v [] = .ok (o, verdict.issues) := by
  cases verdict with
  | accepted o => exact ⟨o, run_eq_accepted_iff.1 h⟩
  | rejected issues => exact (run_eq_rejected_iff.1 h).2

theorem settles_iff_run {V : Validator} {v : Value} :
    V.Settles v ↔ ∃ verdict, V.run v = .ok verdict := by
  unfold run Settles
  rcases V.check v [] with f | outcome <;> simp [bind, Except.bind, pure, Except.pure]

/-! ## Nodes without trees below them -/

theorem reject_ne_ok_nil {v o : Value} {p : String} {path : Path} {f : Finding} :
    reject v p path f ≠ .ok (o, []) := by
  simp [reject]

theorem report_eq_ok_nil_iff {v o : Value} {p : String} {path : Path} {fs : List Finding} :
    report v p path fs = .ok (o, []) ↔ fs = [] ∧ o = v := by
  simp only [report, Except.ok.injEq, Prod.mk.injEq, List.map_eq_nil_iff]
  exact ⟨fun h => ⟨h.2, h.1.symm⟩, fun h => ⟨h.2.symm, h.1⟩⟩

theorem accepts_any_iff {p : String} {v o : Value} : (any p).Accepts v o ↔ o = v := by
  simp [Accepts, check, eq_comm]

theorem not_accepts_never {p : String} {v o : Value} : ¬ (never p).Accepts v o :=
  reject_ne_ok_nil

theorem accepts_literal_iff {p : String} {expected v o : Value} :
    (literal p expected).Accepts v o ↔ v.canonical = expected.canonical ∧ o = v := by
  rw [Accepts, check]
  split
  next h => rw [Value.sameData_iff] at h; simp [h, eq_comm]
  next h => rw [Value.sameData_iff] at h; simp [h, reject]

theorem text?_eq_some_iff {v : Value} {s : String} : v.text? = some s ↔ v = .text s := by
  unfold Value.text?; split <;> simp_all

theorem accepts_options_iff {p : String} {choices : List String} {v o : Value} :
    (options p choices).Accepts v o ↔ (∃ s ∈ choices, v = .text s) ∧ o = v := by
  rw [Accepts, check]
  split
  next s h =>
    rw [text?_eq_some_iff] at h; subst h
    split
    next hs => simp [List.contains_iff_mem.1 hs, eq_comm]
    next hs => simpa [reject] using fun hmem => absurd (List.contains_iff_mem.2 hmem) hs
  next h =>
    refine ⟨fun h' => absurd h' reject_ne_ok_nil, ?_⟩
    rintro ⟨⟨s, -, rfl⟩, -⟩
    cases h

theorem accepts_kind_iff {p expected : String} {v o : Value} :
    (kind p expected).Accepts v o ↔ v.kind = expected ∧ o = v := by
  rw [Accepts, check]
  split <;> simp_all [reject, eq_comm]

theorem accepts_text_iff {p : String} {rules : TextRules} {v o : Value} :
    (text p rules).Accepts v o ↔ ∃ s, v = .text s ∧ rules.findings s = .ok [] ∧ o = v := by
  rw [Accepts, check]
  split
  next h =>
    refine ⟨fun h' => absurd h' reject_ne_ok_nil, ?_⟩
    rintro ⟨s, rfl, -⟩
    cases h
  next s h =>
    rw [text?_eq_some_iff] at h; subst h
    simp only [bind_eq_ok_iff, report_eq_ok_nil_iff]
    simp

theorem findingIf_eq_nil_iff {violated : Bool} {f : Finding} :
    findingIf violated f = [] ↔ violated = false := by
  cases violated <;> simp [findingIf]

theorem TextRules.findings_eq_ok_nil_iff {rules : TextRules} {s : String} :
    rules.findings s = .ok [] ↔
      sizeFindings rules.minLength ((Number.int s.length).lt ·) .tooShort = .ok [] ∧
      sizeFindings rules.maxLength (·.lt (Number.int s.length)) .tooLong = .ok [] ∧
      (∀ p, rules.pattern = some p → p.search s) ∧ (rules.dateTime → Timestamp.isDateTime s) := by
  rw [TextRules.findings]
  simp only [bind_eq_ok_iff, pure, Except.pure, Except.ok.injEq, List.append_eq_nil_iff,
    findingIf_eq_nil_iff]
  have hformat : (rules.dateTime && !Timestamp.isDateTime s) = false ↔
      (rules.dateTime → Timestamp.isDateTime s) := by
    cases rules.dateTime <;> simp
  rw [hformat]
  cases rules.pattern with
  | none =>
    constructor
    · rintro ⟨_, hs, _, hl, ⟨⟨rfl, rfl⟩, -⟩, hd⟩; exact ⟨hs, hl, by simp, hd⟩
    · rintro ⟨hs, hl, -, hd⟩; exact ⟨[], hs, [], hl, ⟨⟨rfl, rfl⟩, rfl⟩, hd⟩
  | some p =>
    have hpattern (f : Finding) : findingIf (!p.search s) f = [] ↔
        ∀ q, some p = some q → q.search s := by
      simp [findingIf_eq_nil_iff]
    constructor
    · rintro ⟨_, hs, _, hl, ⟨⟨rfl, rfl⟩, hp⟩, hd⟩; exact ⟨hs, hl, (hpattern _).1 hp, hd⟩
    · rintro ⟨hs, hl, hp, hd⟩; exact ⟨[], hs, [], hl, ⟨⟨rfl, rfl⟩, (hpattern _).2 hp⟩, hd⟩

theorem ListRules.findings_eq_ok_nil_iff {rules : ListRules} {count : Nat} :
    rules.findings count = .ok [] ↔
      sizeFindings rules.minItems ((Number.int count).lt ·) .tooFewItems = .ok [] ∧
      sizeFindings rules.maxItems (·.lt (Number.int count)) .tooManyItems = .ok [] := by
  rw [ListRules.findings]
  simp only [bind_eq_ok_iff, pure, Except.pure, Except.ok.injEq, List.append_eq_nil_iff]
  constructor
  · rintro ⟨_, hf, _, hm, rfl, rfl⟩; exact ⟨hf, hm⟩
  · rintro ⟨hf, hm⟩; exact ⟨[], hf, [], hm, rfl, rfl⟩

theorem limitFindings_eq_nil_iff {limit : Option Number} {violates : Number → Bool}
    {f : Number → Finding} :
    limitFindings limit violates f = [] ↔ ∀ m, limit = some m → violates m = false := by
  cases limit <;> simp [limitFindings, findingIf_eq_nil_iff]

theorem NumberRules.findings_eq_nil_iff {rules : NumberRules} {n : Number} :
    rules.findings n = [] ↔ (rules.integer → n.isWhole) ∧
      (∀ m, rules.minimum = some m → n.lt m = false) ∧
      (∀ m, rules.exclusiveMinimum = some m → n.le m = false) ∧
      (∀ m, rules.maximum = some m → m.lt n = false) ∧
      (∀ m, rules.exclusiveMaximum = some m → m.le n = false) := by
  have hinteger : (rules.integer && !n.isWhole) = false ↔ (rules.integer → n.isWhole) := by
    cases rules.integer <;> simp
  simp only [NumberRules.findings, List.append_eq_nil_iff, findingIf_eq_nil_iff, hinteger,
    limitFindings_eq_nil_iff, and_assoc]

theorem number?_eq_some_iff {v : Value} {n : Number} : v.number? = some n ↔ v = .number n := by
  unfold Value.number?; split <;> simp_all

theorem accepts_number_iff {p : String} {rules : NumberRules} {v o : Value} :
    (number p rules).Accepts v o ↔
      ∃ n, v = .number n ∧ isFiniteNumber v = .ok true ∧ rules.findings n = [] ∧ o = v := by
  rw [Accepts, check]
  simp only [bind_eq_ok_iff]
  constructor
  · rintro ⟨finite, hf, h⟩
    cases hn : v.number? with
    | none => rw [hn] at h; cases finite <;> exact absurd h reject_ne_ok_nil
    | some n =>
      rw [hn] at h
      cases finite with
      | false => exact absurd h reject_ne_ok_nil
      | true => exact ⟨n, number?_eq_some_iff.1 hn, hf, report_eq_ok_nil_iff.1 h⟩
  · rintro ⟨n, rfl, hf, h⟩
    exact ⟨true, hf, report_eq_ok_nil_iff.2 h⟩

/-! ## Unions and intersections -/

theorem checkBranches_eq_inl_iff {branches : List Validator} {v o : Value} (path : Path) :
    checkBranches branches v path = .ok (.inl o) ↔
      ∃ before b after, branches = before ++ b :: after ∧ (∀ b' ∈ before, b'.Rejects v) ∧
        b.Accepts v o := by
  induction branches with
  | nil => simp [checkBranches]
  | cons b bs ih =>
    rw [checkBranches]
    simp only [bind_eq_ok_iff]
    constructor
    · rintro ⟨⟨o', is⟩, hb, h⟩
      cases is with
      | nil =>
        cases h
        exact ⟨[], b, bs, rfl, by simp, (check_eq_ok_nil_iff path).1 hb⟩
      | cons i is =>
        simp only [List.isEmpty_cons, Bool.false_eq_true, if_false, bind_eq_ok_iff] at h
        obtain ⟨result, hr, h⟩ := h
        cases result with
        | inr causes => cases h
        | inl o'' =>
          cases h
          obtain ⟨before, c, after, rfl, hbefore, hc⟩ := ih.1 hr
          refine ⟨b :: before, c, after, rfl, ?_, hc⟩
          simpa using ⟨(rejects_iff path).2 ⟨_, _, _, hb⟩, hbefore⟩
    · rintro ⟨before, c, after, heq, hbefore, hc⟩
      cases before with
      | nil =>
        obtain ⟨rfl, rfl⟩ := List.cons.inj heq
        exact ⟨_, (check_eq_ok_nil_iff path).2 hc, rfl⟩
      | cons b' before =>
        rw [List.cons_append] at heq
        obtain ⟨rfl, rfl⟩ := List.cons.inj heq
        obtain ⟨o', i, is, hb⟩ := (rejects_iff path).1 (hbefore b (by simp))
        refine ⟨_, hb, ?_⟩
        have := ih.2 ⟨before, c, after, rfl, fun d hd => hbefore d (by simp [hd]), hc⟩
        simp [this, bind, Except.bind, pure, Except.pure]

theorem accepts_union_iff {p : String} {branches : List Validator} {v o : Value} :
    (union p branches).Accepts v o ↔
      ∃ before b after, branches = before ++ b :: after ∧ (∀ b' ∈ before, b'.Rejects v) ∧
        b.Accepts v o := by
  rw [← checkBranches_eq_inl_iff [], Accepts, check]
  simp only [bind_eq_ok_iff]
  constructor
  · rintro ⟨result, hr, h⟩
    cases result <;> cases h
    exact hr
  · exact fun h => ⟨_, h, rfl⟩

/-- A union of settled branches accepts what one of them accepts. -/
theorem exists_accepts_union {p : String} {branches : List Validator} {v : Value}
    (hs : ∀ b ∈ branches, b.Settles v) {b : Validator} (hb : b ∈ branches) {o : Value}
    (h : b.Accepts v o) : ∃ o', (union p branches).Accepts v o' := by
  simp only [accepts_union_iff]
  induction branches with
  | nil => cases hb
  | cons c cs ih =>
    rcases settles_iff.1 (hs c (by simp)) with ⟨o', hc⟩ | hc
    · exact ⟨o', [], c, cs, rfl, by simp, hc⟩
    · have hbc : b ∈ cs := by
        rcases List.mem_cons.1 hb with rfl | hb
        · exact absurd hc h.not_rejects
        · exact hb
      obtain ⟨o', before, d, after, rfl, hbefore, hd⟩ := ih (fun d hd => hs d (by simp [hd])) hbc
      exact ⟨o', c :: before, d, after, rfl, by simpa using ⟨hc, hbefore⟩, hd⟩

/-- An intersection has the issues of both validators, and the join of their
    outputs if there are none. -/
theorem check_both_eq_ok {p : String} {left right : Validator} {v o : Value} {path : Path}
    {issues : List Issue} (h : (both p left right).check v path = .ok (o, issues)) :
    ∃ l li r ri, left.check v path = .ok (l, li) ∧ right.check v path = .ok (r, ri) ∧
      issues = li ++ ri ∧ (issues = [] → o = l.merge r) := by
  rw [check_both] at h
  obtain ⟨⟨l, li⟩, hl, h⟩ := bind_eq_ok_iff.1 h
  obtain ⟨⟨r, ri⟩, hr, h⟩ := bind_eq_ok_iff.1 h
  refine ⟨l, li, r, ri, hl, hr, ?_⟩
  dsimp only at h
  split at h
  next he =>
    cases h
    exact ⟨(List.isEmpty_iff.1 he).symm, fun _ => rfl⟩
  next he =>
    cases h
    exact ⟨rfl, fun hnil => absurd (List.isEmpty_iff.2 hnil) he⟩

theorem accepts_both_iff {p : String} {left right : Validator} {v o : Value} :
    (both p left right).Accepts v o ↔
      ∃ l r, left.Accepts v l ∧ right.Accepts v r ∧ o = l.merge r := by
  constructor
  · intro h
    obtain ⟨l, li, r, ri, hl, hr, hnil, ho⟩ := check_both_eq_ok h
    obtain ⟨rfl, rfl⟩ := List.append_eq_nil_iff.1 hnil.symm
    exact ⟨l, r, hl, hr, ho rfl⟩
  · rintro ⟨l, r, hl, hr, rfl⟩
    rw [Accepts, check_both, bind_eq_ok_iff]
    exact ⟨_, hl, bind_eq_ok_iff.2 ⟨_, hr, rfl⟩⟩

/-! ## Lists -/

theorem repeatsFrom_eq_nil_iff {seen : List Value} {i : Nat} {items : List Value} :
    repeatsFrom seen i items = [] ↔ (∀ x ∈ items, x.canonical ∉ seen) ∧
      items.Pairwise fun x y => x.canonical ≠ y.canonical := by
  induction items generalizing seen i with
  | nil => simp [repeatsFrom]
  | cons x items ih =>
    rw [repeatsFrom]
    split
    next h => simp [List.contains_iff_mem.1 h]
    next h =>
      have hx : x.canonical ∉ seen := fun hx => h (List.contains_iff_mem.2 hx)
      rw [ih, List.forall_mem_cons, List.pairwise_cons]
      simp only [List.mem_cons, not_or, forall_and]
      constructor
      · rintro ⟨⟨hne, hseen⟩, hp⟩; exact ⟨⟨hx, hseen⟩, fun y hy heq => hne y hy heq.symm, hp⟩
      · rintro ⟨⟨-, hseen⟩, hne, hp⟩; exact ⟨⟨fun y hy heq => hne y hy heq.symm, hseen⟩, hp⟩

/-- Nothing is repeated where no two elements are the same data. -/
theorem repeats_eq_nil_iff {items : List Value} :
    repeats items = [] ↔ items.Pairwise fun x y => ¬ x.sameData y := by
  simp [repeats, repeatsFrom_eq_nil_iff]

theorem forall₂_accepts_iff {items : Validator} {xs ys : List Value} {n : Nat} :
    List.Forall₂ items.Accepts xs ys ↔
      ∃ checked, List.Forall₂ (fun e r => items.check e.1 ([] ++ [.index e.2]) = .ok r)
        (xs.zipIdx n) checked ∧ (∀ r ∈ checked, r.2 = []) ∧ ys = checked.map (·.1) := by
  induction xs generalizing n ys with
  | nil => simp
  | cons x xs ih =>
    rw [List.zipIdx_cons]
    constructor
    · rintro (_ | ⟨hx, hxs⟩)
      obtain ⟨checked, hc, hi, rfl⟩ := (ih (n := n + 1)).1 hxs
      exact ⟨(_, []) :: checked, .cons ((check_eq_ok_nil_iff _).2 hx) hc, by simpa using hi, rfl⟩
    · rintro ⟨checked, hc, hi, rfl⟩
      obtain ⟨⟨y, is⟩, checked, hx, hxs, rfl⟩ := List.forall₂_cons_left_iff.1 hc
      obtain ⟨rfl, hrest⟩ : is = [] ∧ ∀ r ∈ checked, r.2 = [] := List.forall_mem_cons.1 hi
      exact .cons ((check_eq_ok_nil_iff _).1 hx) (ih.2 ⟨checked, hxs, hrest, rfl⟩)

theorem accepts_list_iff {p : String} {items : Validator} {rules : ListRules} {v o : Value} :
    (list p items rules).Accepts v o ↔
      ∃ xs ys, v.elements? = some xs ∧ List.Forall₂ items.Accepts xs ys ∧
        rules.findings xs.length = .ok [] ∧ (rules.uniqueItems → repeats xs = []) ∧ o = .list ys := by
  rw [Accepts, check]
  cases hv : v.elements? with
  | none =>
    refine ⟨fun h => absurd h reject_ne_ok_nil, ?_⟩
    rintro ⟨xs, ys, h, -⟩
    cases h
  | some xs =>
    simp only [bind_eq_ok_iff, mapM_eq_ok_iff]
    constructor
    · rintro ⟨checked, hc, own, hown, h⟩
      simp only [pure, Except.pure, Except.ok.injEq, Prod.mk.injEq, List.append_eq_nil_iff,
        List.map_eq_nil_iff, List.flatMap_eq_nil_iff] at h
      obtain ⟨rfl, ⟨hissues, rfl⟩, hrepeats⟩ := h
      exact ⟨xs, checked.map (·.1), rfl, forall₂_accepts_iff.2 ⟨checked, hc, hissues, rfl⟩, hown,
        fun hu => by simpa [hu] using hrepeats, rfl⟩
    · rintro ⟨_, ys, hxs, hacc, hown, hu, rfl⟩
      obtain rfl := Option.some.inj hxs
      obtain ⟨checked, hc, hissues, rfl⟩ := forall₂_accepts_iff.1 hacc
      refine ⟨checked, hc, [], hown, ?_⟩
      have hrepeats : (if rules.uniqueItems = true then repeats xs else []) = [] := by
        split
        next h => exact hu h
        next => rfl
      simp [pure, Except.pure, hrepeats, List.flatMap_eq_nil_iff.2 hissues]

/-! ## Objects -/

/-- The declared properties of an object are accepted, and `out` is what becomes
    of those that are there. -/
inductive AcceptsProperties (required : List Value) (fields : Fields) :
    List (String × Validator) → Fields → Prop
  | nil : AcceptsProperties required fields [] []
  | absent {name : String} {V : Validator} {rest : List (String × Validator)} {out : Fields}
      (hx : fields.named? name = none) (hr : .text name ∉ required)
      (h : AcceptsProperties required fields rest out) :
      AcceptsProperties required fields ((name, V) :: rest) out
  | present {name : String} {V : Validator} {rest : List (String × Validator)} {out : Fields}
      {x y : Value} (hx : fields.named? name = some x) (hy : V.Accepts x y)
      (h : AcceptsProperties required fields rest out) :
      AcceptsProperties required fields ((name, V) :: rest) ((.text name, y) :: out)

theorem checkProperties_eq_ok_nil_iff {p : String} {required : List Value} {fields : Fields}
    {path : Path} {properties : List (String × Validator)} {out : Fields} :
    checkProperties p required properties fields path = .ok (out, []) ↔
      AcceptsProperties required fields properties out := by
  induction properties generalizing out with
  | nil =>
    rw [checkProperties]
    constructor
    · intro h; cases h; exact .nil
    · rintro ⟨⟩; rfl
  | cons q qs ih =>
    obtain ⟨name, V⟩ := q
    rw [checkProperties]
    cases hx : fields.named? name with
    | none =>
      simp only [bind_eq_ok_iff]
      constructor
      · rintro ⟨⟨out', is⟩, h, heq⟩
        simp only [pure, Except.pure, Except.ok.injEq, Prod.mk.injEq, List.append_eq_nil_iff] at heq
        obtain ⟨rfl, hown, rfl⟩ := heq
        refine .absent hx (fun hr => ?_) (ih.1 h)
        rw [if_pos (List.contains_iff_mem.2 hr)] at hown
        cases hown
      · rintro (_ | ⟨-, hr, h⟩ | ⟨hx', -, -⟩)
        · refine ⟨_, ih.2 h, ?_⟩
          rw [if_neg (fun h => hr (List.contains_iff_mem.1 h))]; rfl
        · rw [hx] at hx'; cases hx'
    | some x =>
      simp only [bind_eq_ok_iff]
      constructor
      · rintro ⟨⟨y, own⟩, hy, ⟨out', is⟩, h, heq⟩
        simp only [pure, Except.pure, Except.ok.injEq, Prod.mk.injEq, List.append_eq_nil_iff] at heq
        obtain ⟨rfl, rfl, rfl⟩ := heq
        exact .present hx ((check_eq_ok_nil_iff _).1 hy) (ih.1 h)
      · rintro (_ | ⟨hx', -, -⟩ | ⟨hx', hy, h⟩)
        · rw [hx] at hx'; cases hx'
        · rw [hx] at hx'; cases hx'
          exact ⟨_, (check_eq_ok_nil_iff _).2 hy, _, ih.2 h, rfl⟩

section
variable {required : List Value} {fields : Fields} {properties : List (String × Validator)}
  {out : Fields}

/-- What acceptance of the properties says of each. -/
theorem AcceptsProperties.of_mem (h : AcceptsProperties required fields properties out)
    {q : String × Validator} (hq : q ∈ properties) :
    (fields.named? q.1 = none → .text q.1 ∉ required) ∧
      ∀ x, fields.named? q.1 = some x → ∃ y, q.2.Accepts x y ∧ (.text q.1, y) ∈ out := by
  induction h with
  | nil => cases hq
  | absent hx hr _ ih =>
    rcases List.mem_cons.1 hq with rfl | hq
    · exact ⟨fun _ => hr, fun x hx' => absurd (hx'.symm.trans hx) (Option.some_ne_none _)⟩
    · exact ih hq
  | present hx hy _ ih =>
    rcases List.mem_cons.1 hq with rfl | hq
    · refine ⟨fun hx' => absurd (hx.symm.trans hx') (Option.some_ne_none _), fun x hx' => ?_⟩
      rw [hx] at hx'; cases hx'
      exact ⟨_, hy, by simp⟩
    · refine ⟨(ih hq).1, fun x hx' => ?_⟩
      obtain ⟨y, hy, hm⟩ := (ih hq).2 x hx'
      exact ⟨y, hy, List.mem_cons_of_mem _ hm⟩

/-- Where the fields of the cleaned object come from. -/
theorem AcceptsProperties.exists_of_mem_out (h : AcceptsProperties required fields properties out)
    {k : Scalar} {y : Value} (hk : (k, y) ∈ out) :
    ∃ q ∈ properties, k = .text q.1 ∧ ∃ x, fields.named? q.1 = some x ∧ q.2.Accepts x y := by
  induction h with
  | nil => cases hk
  | absent _ _ _ ih =>
    obtain ⟨q, hq, h⟩ := ih hk
    exact ⟨q, by simp [hq], h⟩
  | present hx hy _ ih =>
    rcases List.mem_cons.1 hk with heq | hk
    · cases heq; exact ⟨(_, _), List.mem_cons_self, rfl, _, hx, hy⟩
    · obtain ⟨q, hq, h⟩ := ih hk
      exact ⟨q, by simp [hq], h⟩

theorem AcceptsProperties.keys_sublist (h : AcceptsProperties required fields properties out) :
    out.keys.Sublist (properties.map fun q => .text q.1) := by
  induction h with
  | nil => exact .slnil
  | absent _ _ _ ih => exact .cons _ ih
  | present _ _ _ ih => exact .cons_cons _ ih

theorem exists_acceptsProperties
    (h : ∀ q ∈ properties, (fields.named? q.1 = none → .text q.1 ∉ required) ∧
      ∀ x, fields.named? q.1 = some x → ∃ y, q.2.Accepts x y) :
    ∃ out, AcceptsProperties required fields properties out := by
  induction properties with
  | nil => exact ⟨[], .nil⟩
  | cons q qs ih =>
    obtain ⟨name, V⟩ := q
    obtain ⟨out, hout⟩ := ih fun q hq => h q (by simp [hq])
    obtain ⟨hnone, hsome⟩ := h (name, V) (by simp)
    cases hx : fields.named? name with
    | none => exact ⟨out, .absent hx (hnone hx) hout⟩
    | some x =>
      obtain ⟨y, hy⟩ := hsome x hx
      exact ⟨_, .present hx hy hout⟩

theorem exists_acceptsProperties_iff :
    (∃ out, AcceptsProperties required fields properties out) ↔
      (∀ q ∈ properties, fields.named? q.1 = none → .text q.1 ∉ required) ∧
      ∀ q ∈ properties, ∀ x, fields.named? q.1 = some x → ∃ y, q.2.Accepts x y := by
  constructor
  · rintro ⟨out, h⟩
    refine ⟨fun q hq => (h.of_mem hq).1, fun q hq x hx => ?_⟩
    obtain ⟨y, hy, -⟩ := (h.of_mem hq).2 x hx
    exact ⟨y, hy⟩
  · rintro ⟨hnone, hsome⟩
    exact exists_acceptsProperties fun q hq => ⟨hnone q hq, hsome q hq⟩

theorem mem_undeclared {f : Scalar × Value} :
    f ∈ undeclared properties fields ↔ f ∈ fields ∧ ∀ q ∈ properties, f.1 ≠ .text q.1 := by
  simp [undeclared]

/-- The undeclared fields that an object node keeps. -/
def kept (properties : List (String × Validator)) (closedness : Closedness) (fields : Fields) :
    Fields :=
  if closedness = .passthrough then undeclared properties fields else []

theorem mem_kept {closedness : Closedness} {f : Scalar × Value} :
    f ∈ kept properties closedness fields ↔
      closedness = .passthrough ∧ f ∈ fields ∧ ∀ q ∈ properties, f.1 ≠ .text q.1 := by
  unfold kept
  split <;> simp_all [mem_undeclared]

end

theorem accepts_object_iff {p : String} {properties : List (String × Validator)}
    {required : List Value} {closedness : Closedness} {v o : Value} :
    (object p properties required closedness).Accepts v o ↔
      ∃ fields out, v = .object fields ∧ AcceptsProperties required fields properties out ∧
        (closedness = .strict → undeclared properties fields = []) ∧
        o = .object (out ++ kept properties closedness fields) := by
  cases v with
  | object fields =>
    rw [Accepts, check]
    simp only [bind_eq_ok_iff]
    constructor
    · rintro ⟨⟨out, is⟩, h, heq⟩
      cases closedness with
      | strict =>
        dsimp only at heq
        split at heq
        next he =>
          cases heq
          exact ⟨fields, out, rfl, checkProperties_eq_ok_nil_iff.1 h, fun _ => List.isEmpty_iff.1 he,
            by simp [kept]⟩
        next => simp [pure, Except.pure] at heq
      | passthrough =>
        cases heq
        exact ⟨fields, out, rfl, checkProperties_eq_ok_nil_iff.1 h, by simp, by simp [kept]⟩
      | strip =>
        cases heq
        exact ⟨fields, out, rfl, checkProperties_eq_ok_nil_iff.1 h, by simp, by simp [kept]⟩
    · rintro ⟨_, out, heq, h, hs, rfl⟩
      cases heq
      refine ⟨_, checkProperties_eq_ok_nil_iff.2 h, ?_⟩
      cases closedness with
      | strict => simp [hs rfl, kept, pure, Except.pure]
      | passthrough => simp [kept, pure, Except.pure]
      | strip => simp [kept, pure, Except.pure]
  | scalar x =>
    refine ⟨fun h => absurd h reject_ne_ok_nil, ?_⟩
    rintro ⟨_, _, h, -⟩; cases h
  | list xs =>
    refine ⟨fun h => absurd h reject_ne_ok_nil, ?_⟩
    rintro ⟨_, _, h, -⟩; cases h
  | tuple xs =>
    refine ⟨fun h => absurd h reject_ne_ok_nil, ?_⟩
    rintro ⟨_, _, h, -⟩; cases h

end Validator

end SchemaGuard
