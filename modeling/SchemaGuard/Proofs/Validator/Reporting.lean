/-
  SchemaGuard — every flaw is reported, once, and nothing else.

  `Lists V v path P issues` says that the issues are one for each flaw with the
  property `P`; the issues of a node are put together from such lists, of what it
  finds itself and of what the trees below it report. Main result:
  `reports_of_check`, that the issues of a check are a report. In a report a
  failed union has a cause for each branch, at every depth (`Reports.hasCauses`).
-/
import Mathlib.Data.List.Nodup
import SchemaGuard.Proofs.Validator.Findings
import SchemaGuard.Proofs.Validator.Settling

namespace SchemaGuard

namespace Validator

/-! ## Flaws of a node and of the trees below it -/

theorem hasFlaw_iff {V : Validator} {v : Value} {a : Flaw} : V.HasFlaw v a ↔
    (∃ f : Path × Finding, V.Violates v f.1 f.2 ∧ a = .own f) ∨
      ∃ e c y b, V.Leads v e c y ∧ c.HasFlaw y b ∧ a = b.under e := by
  constructor
  · rintro ⟨W, x, hr, hv⟩
    obtain ⟨edges, rest, finding⟩ := a
    cases hr with
    | here => exact Or.inl ⟨(rest, finding), hv, rfl⟩
    | step hl hr => exact Or.inr ⟨_, _, _, ⟨_, rest, finding⟩, hl, ⟨W, x, hr, hv⟩, rfl⟩
  · rintro (⟨f, hv, rfl⟩ | ⟨e, c, y, b, hl, ⟨W, x, hr, hv⟩, rfl⟩)
    · exact ⟨V, v, .here, hv⟩
    · exact ⟨W, x, .step hl hr, hv⟩

/-- No edge leads away from a node without trees below it. -/
theorem not_leads {V : Validator} (h : V.children = []) {v : Value} (e : Edge) (c : Validator) (y : Value) :
    ¬ V.Leads v e c y := by
  intro hl
  have hc := hl.mem_children
  rw [h] at hc
  cases hc

theorem Flaw.own_ne_under {f : Path × Finding} {e : Edge} {b : Flaw} : own f ≠ b.under e := by
  intro h
  have : ([] : List Edge) = e :: b.edges := congrArg Flaw.edges h
  cases this

theorem Flaw.edge_eq_of_under_eq {e e' : Edge} {b b' : Flaw} (h : b.under e = b'.under e') : e = e' := by
  have : e :: b.edges = e' :: b'.edges := congrArg Flaw.edges h
  exact (List.cons.inj this).1

/-! ## Lists of issues -/

/-- The issues are one for each flaw with a property, in some order. -/
def Lists (V : Validator) (v : Value) (path : Path) (P : Flaw → Prop) (issues : List Issue) : Prop :=
  ∃ found : List Flaw, found.Nodup ∧ (∀ a, a ∈ found ↔ P a) ∧ V.ReportsEach v path found issues

section
variable {V c : Validator} {v y : Value} {path : Path} {P Q : Flaw → Prop} {issues issues' : List Issue}
  {found found' : List Flaw}

theorem reports_iff_lists : V.Reports v path issues ↔ Lists V v path (V.HasFlaw v) issues := by
  constructor
  · rintro ⟨found, hnodup, hmem, heach⟩; exact ⟨found, hnodup, hmem, heach⟩
  · rintro ⟨found, hnodup, hmem, heach⟩; exact .intro found hnodup hmem heach

theorem ReportsEach.append (h : V.ReportsEach v path found issues)
    (h' : V.ReportsEach v path found' issues') :
    V.ReportsEach v path (found ++ found') (issues ++ issues') := by
  induction found generalizing issues with
  | nil => cases h; exact h'
  | cons a found ih =>
    cases h with
    | plain hr hv hu h => exact .plain hr hv hu (ih h)
    | union hr hv hb h => exact .union hr hv hb (ih h)

/-- What a tree below reports, as part of the report of the tree above. -/
theorem ReportsEach.under {e : Edge} (hl : V.Leads v e c y)
    (h : c.ReportsEach y (path ++ e.steps) found issues) :
    V.ReportsEach v path (found.map (Flaw.under e)) issues := by
  induction found generalizing issues with
  | nil => cases h; exact .nil
  | cons a found ih =>
    have hpath : path ++ e.steps ++ a.path = path ++ (a.under e).path := by
      rw [Flaw.path_under, List.append_assoc]
    cases h with
    | plain hr hv hu h => rw [hpath]; exact .plain (.step hl hr) hv hu (ih h)
    | union hr hv hb h => rw [hpath] at hb ⊢; exact .union (.step hl hr) hv hb (ih h)

theorem ReportsEach.own {fs : List (Path × Finding)} (hu : ¬ V.isUnion)
    (hfs : ∀ f ∈ fs, V.Violates v f.1 f.2) : V.ReportsEach v path (fs.map Flaw.own)
      (fs.map fun f => .mk V.pointer (path ++ f.1) f.2 []) := by
  induction fs with
  | nil => exact .nil
  | cons f fs ih =>
    obtain ⟨hf, hfs⟩ := List.forall_mem_cons.1 hfs
    exact .plain .here hf hu (ih hfs)

theorem Lists.congr (h : Lists V v path P issues) (hPQ : ∀ a, P a ↔ Q a) : Lists V v path Q issues := by
  obtain ⟨found, hnodup, hmem, heach⟩ := h
  exact ⟨found, hnodup, fun a => (hmem a).trans (hPQ a), heach⟩

theorem Lists.nil (hP : ∀ a, ¬ P a) : Lists V v path P [] :=
  ⟨[], List.nodup_nil, fun a => iff_of_false List.not_mem_nil (hP a), .nil⟩

theorem Lists.append (h : Lists V v path P issues) (h' : Lists V v path Q issues')
    (hPQ : ∀ a, P a → ¬ Q a) : Lists V v path (fun a => P a ∨ Q a) (issues ++ issues') := by
  obtain ⟨found, hnodup, hmem, heach⟩ := h
  obtain ⟨found', hnodup', hmem', heach'⟩ := h'
  refine ⟨found ++ found', ?_, fun a => ?_, heach.append heach'⟩
  · rw [List.nodup_append]
    refine ⟨hnodup, hnodup', ?_⟩
    rintro a ha _ ha' rfl
    exact hPQ a ((hmem a).1 ha) ((hmem' a).1 ha')
  · rw [List.mem_append, hmem, hmem']

/-- What a tree below reports is listed in the report of the tree above. -/
theorem Reports.lists_under {e : Edge} (hl : V.Leads v e c y)
    (h : c.Reports y (path ++ e.steps) issues) :
    Lists V v path (fun a => ∃ b, c.HasFlaw y b ∧ a = b.under e) issues := by
  obtain ⟨found, hnodup, hmem, heach⟩ := h
  refine ⟨found.map (Flaw.under e), hnodup.map (Flaw.under_injective e), fun a => ?_, heach.under hl⟩
  simp only [List.mem_map, hmem, eq_comm]

theorem lists_own {fs : List (Path × Finding)} (hu : ¬ V.isUnion) (hnodup : fs.Nodup)
    (hfs : ∀ f ∈ fs, V.Violates v f.1 f.2) :
    Lists V v path (fun a => ∃ f ∈ fs, a = .own f)
      (fs.map fun f => .mk V.pointer (path ++ f.1) f.2 []) := by
  refine ⟨fs.map Flaw.own, hnodup.map Flaw.own_injective, fun a => ?_, .own hu hfs⟩
  simp only [List.mem_map, eq_comm]

/-- What a node finds about the whole of the value. -/
theorem lists_findings {fs : List Finding} (hu : ¬ V.isUnion) (hnodup : fs.Nodup)
    (hfs : ∀ f ∈ fs, V.Violates v [] f) :
    Lists V v path (fun a => ∃ f ∈ fs, a = .own ([], f)) (fs.map fun f => .mk V.pointer path f []) := by
  have hown : Lists V v path (fun a => ∃ f ∈ fs.map fun f => (([] : Path), f), a = .own f) _ :=
    lists_own hu (hnodup.map fun f g h => (Prod.mk.inj h).2) (by simpa using hfs)
  rw [List.map_map] at hown
  simp only [Function.comp_def, List.append_nil] at hown
  exact hown.congr fun a => by simp

/-- The report of a node without trees below it. -/
theorem reports_findings {fs : List Finding} (hleaf : ∀ e c y, ¬ V.Leads v e c y) (hu : ¬ V.isUnion)
    (hnodup : fs.Nodup) (hfs : ∀ rest f, V.Violates v rest f ↔ rest = [] ∧ f ∈ fs) :
    V.Reports v path (fs.map fun f => .mk V.pointer path f []) := by
  refine reports_iff_lists.2 ((lists_findings hu hnodup fun f hf => (hfs [] f).2 ⟨rfl, hf⟩).congr ?_)
  intro a
  rw [hasFlaw_iff]
  constructor
  · rintro ⟨f, hf, rfl⟩; exact Or.inl ⟨([], f), (hfs [] f).2 ⟨rfl, hf⟩, rfl⟩
  · rintro (⟨⟨rest, f⟩, hv, rfl⟩ | ⟨e, c, y, b, hl, -⟩)
    · obtain ⟨rfl, hf⟩ := (hfs rest f).1 hv; exact ⟨f, hf, rfl⟩
    · exact absurd hl (hleaf e c y)

theorem reports_none (hleaf : ∀ e c y, ¬ V.Leads v e c y) (hno : ∀ rest f, ¬ V.Violates v rest f) :
    V.Reports v path [] := by
  refine reports_iff_lists.2 (.nil fun a ha => ?_)
  rcases hasFlaw_iff.1 ha with ⟨f, hf, -⟩ | ⟨e, c, y, b, hl, -⟩
  · exact hno f.1 f.2 hf
  · exact hleaf e c y hl

/-- The report of a node without trees below it that rejects a value for one reason. -/
theorem reports_reject {o : Value} {f : Finding} (hleaf : ∀ e c y, ¬ V.Leads v e c y)
    (hu : ¬ V.isUnion) (hf : V.Violates v [] f) (honly : ∀ rest g, V.Violates v rest g → rest = [] ∧ g = f)
    (h : reject v V.pointer path f = .ok (o, issues)) : V.Reports v path issues := by
  cases h
  refine reports_findings hleaf hu (List.nodup_singleton f) fun rest g => ⟨fun hg => ?_, ?_⟩
  · obtain ⟨rfl, rfl⟩ := honly rest g hg; exact ⟨rfl, List.mem_singleton_self g⟩
  · rintro ⟨rfl, hg⟩; obtain rfl := List.mem_singleton.1 hg; exact hf

end

/-! ## Nodes without trees below them -/

section
variable {p : String} {v : Value} {path : Path} {o : Value} {issues : List Issue}

theorem reports_never (h : (never p).check v path = .ok (o, issues)) :
    (never p).Reports v path issues := by
  refine reports_reject (V := never p) (not_leads rfl) Bool.false_ne_true .nothingAllowed (fun rest g hg => ?_) h
  cases hg; exact ⟨rfl, rfl⟩

theorem reports_literal {expected : Value} (h : (literal p expected).check v path = .ok (o, issues)) :
    (literal p expected).Reports v path issues := by
  rw [check] at h
  split at h
  next hsame =>
    cases h
    refine reports_none (not_leads rfl) fun rest f hf => ?_
    cases hf with
    | notExpected hne => exact hne hsame
  next hne =>
    refine reports_reject (V := literal p expected) (not_leads rfl) Bool.false_ne_true (.notExpected hne) (fun rest g hg => ?_) h
    cases hg; exact ⟨rfl, rfl⟩

theorem reports_options {choices : List String} (h : (options p choices).check v path = .ok (o, issues)) :
    (options p choices).Reports v path issues := by
  have hreject : (∀ s ∈ choices, v ≠ .text s) →
      reject v p path (.notAnOption choices v) = .ok (o, issues) →
      (options p choices).Reports v path issues := fun hne h => by
    refine reports_reject (V := options p choices) (not_leads rfl) Bool.false_ne_true (.notAnOption hne) (fun rest g hg => ?_) h
    cases hg; exact ⟨rfl, rfl⟩
  rw [check] at h
  split at h
  next s hs =>
    obtain rfl := text?_eq_some_iff.1 hs
    split at h
    next hmem =>
      cases h
      refine reports_none (not_leads rfl) fun rest f hf => ?_
      cases hf with
      | notAnOption hne => exact hne s (List.contains_iff_mem.1 hmem) rfl
    next hmem =>
      refine hreject (fun t ht heq => ?_) h
      cases heq
      exact hmem (List.contains_iff_mem.2 ht)
  next hs =>
    refine hreject (fun t _ heq => ?_) h
    rw [text?_eq_some_iff.2 heq] at hs
    cases hs

theorem reports_kind {expected : String} (h : (kind p expected).check v path = .ok (o, issues)) :
    (kind p expected).Reports v path issues := by
  rw [check] at h
  split at h
  next hk =>
    cases h
    refine reports_none (not_leads rfl) fun rest f hf => ?_
    cases hf with
    | wrongKind hne => exact hne hk
  next hk =>
    refine reports_reject (V := kind p expected) (not_leads rfl) Bool.false_ne_true (.wrongKind hk) (fun rest g hg => ?_) h
    cases hg; exact ⟨rfl, rfl⟩

theorem reports_text {rules : TextRules} (h : (text p rules).check v path = .ok (o, issues)) :
    (text p rules).Reports v path issues := by
  rw [check] at h
  split at h
  next hs =>
    have hne : ∀ s, v ≠ .text s := fun s heq => by rw [text?_eq_some_iff.2 heq] at hs; cases hs
    refine reports_reject (V := text p rules) (not_leads rfl) Bool.false_ne_true (.notText hne) (fun rest g hg => ?_) h
    cases hg with
    | notText => exact ⟨rfl, rfl⟩
    | _ => exact absurd rfl (hne _)
  next s hs =>
    obtain rfl := text?_eq_some_iff.1 hs
    obtain ⟨fs, hfs, h⟩ := bind_eq_ok_iff.1 h
    cases h
    refine reports_findings (V := text p rules) (not_leads rfl) Bool.false_ne_true (nodup_textFindings hfs) fun rest f => ?_
    rw [mem_textFindings_iff (p := p) hfs]
    constructor
    · intro hf
      have hrest : rest = [] := by cases hf <;> rfl
      subst hrest
      exact ⟨rfl, hf⟩
    · rintro ⟨rfl, hf⟩; exact hf

theorem exists_number_of_isFiniteNumber (h : isFiniteNumber v = .ok true) : ∃ n, v = .number n := by
  unfold isFiniteNumber at h
  split at h
  next n => exact ⟨.int n, rfl⟩
  next => exact ⟨_, rfl⟩
  next => cases h

theorem reports_number {rules : NumberRules} (h : (number p rules).check v path = .ok (o, issues)) :
    (number p rules).Reports v path issues := by
  have hreject : isFiniteNumber v ≠ .ok true →
      reject v p path (.wrongKind (if rules.integer then "integer" else "number") v.kind) = .ok (o, issues) →
      (number p rules).Reports v path issues := fun hne h => by
    refine reports_reject (V := number p rules) (not_leads rfl) Bool.false_ne_true (.notNumber hne) (fun rest g hg => ?_) h
    cases hg with
    | notNumber => exact ⟨rfl, rfl⟩
    | fractional hfinite | belowMinimum hfinite | notAboveMinimum hfinite | aboveMaximum hfinite
    | notBelowMaximum hfinite => exact absurd hfinite hne
  rw [check] at h
  obtain ⟨finite, hfinite, h⟩ := bind_eq_ok_iff.1 h
  split at h
  next n hn =>
    obtain rfl := number?_eq_some_iff.1 hn
    cases h
    refine reports_findings (V := number p rules) (not_leads rfl) Bool.false_ne_true nodup_numberFindings fun rest f => ?_
    rw [mem_numberFindings_iff (p := p) hfinite]
    constructor
    · intro hf
      have hrest : rest = [] := by cases hf <;> rfl
      subst hrest
      exact ⟨rfl, hf⟩
    · rintro ⟨rfl, hf⟩; exact hf
  next hnot =>
    refine hreject (fun htrue => ?_) h
    obtain ⟨n, rfl⟩ := exists_number_of_isFiniteNumber htrue
    exact hnot n (Except.ok.inj (hfinite.symm.trans htrue)) rfl

end

/-! ## Intersections -/

theorem hasFlaw_both_iff {p : String} {left right : Validator} {v : Value} {a : Flaw} :
    (both p left right).HasFlaw v a ↔ (∃ b, left.HasFlaw v b ∧ a = b.under .left) ∨
      ∃ b, right.HasFlaw v b ∧ a = b.under .right := by
  rw [hasFlaw_iff]
  constructor
  · rintro (⟨f, hf, -⟩ | ⟨e, c, y, b, hl, hb, rfl⟩)
    · cases hf
    · cases hl with
      | left => exact Or.inl ⟨b, hb, rfl⟩
      | right => exact Or.inr ⟨b, hb, rfl⟩
  · rintro (⟨b, hb, rfl⟩ | ⟨b, hb, rfl⟩)
    · exact Or.inr ⟨_, _, _, b, .left, hb, rfl⟩
    · exact Or.inr ⟨_, _, _, b, .right, hb, rfl⟩

theorem reports_both {p : String} {left right : Validator} {v o : Value} {path : Path} {issues : List Issue}
    (ihl : ∀ o issues, left.check v path = .ok (o, issues) → left.Reports v path issues)
    (ihr : ∀ o issues, right.check v path = .ok (o, issues) → right.Reports v path issues)
    (h : (both p left right).check v path = .ok (o, issues)) :
    (both p left right).Reports v path issues := by
  obtain ⟨l, li, r, ri, hl, hr, hissues, -⟩ := check_both_eq_ok h
  have hli := ihl l li hl
  have hri := ihr r ri hr
  rw [← List.append_nil path] at hli hri
  have hleft := hli.lists_under (V := both p left right) (e := .left) .left
  have hright := hri.lists_under (V := both p left right) (e := .right) .right
  rw [hissues, reports_iff_lists]
  refine (hleft.append hright fun a ha ha' => ?_).congr fun a => hasFlaw_both_iff.symm
  obtain ⟨b, -, rfl⟩ := ha
  obtain ⟨b', -, heq⟩ := ha'
  cases Flaw.edge_eq_of_under_eq heq

/-! ## Unions -/

theorem reportsBranches_of_checkBranches {branches : List Validator} {v : Value} {path : Path}
    {causes : List Issue}
    (ih : ∀ b ∈ branches, ∀ o issues, b.check v path = .ok (o, issues) → b.Reports v path issues)
    (h : checkBranches branches v path = .ok (.inr causes)) :
    ReportsBranches branches v path causes ∧ ∀ b ∈ branches, b.Rejects v := by
  induction branches generalizing causes with
  | nil => cases h; exact ⟨.nil, nofun⟩
  | cons b bs ihbs =>
    obtain ⟨hb, hbs⟩ := List.forall_mem_cons.1 ih
    rw [checkBranches] at h
    obtain ⟨⟨o, is⟩, hcheck, h⟩ := bind_eq_ok_iff.1 h
    cases is with
    | nil => cases h
    | cons i is =>
      obtain ⟨r, hr, h⟩ := bind_eq_ok_iff.1 h
      cases r with
      | inl o' => cases h
      | inr causes =>
        cases h
        obtain ⟨hreports, hrejects⟩ := ihbs hbs hr
        refine ⟨.cons (hb o _ hcheck) (List.cons_ne_nil i is) hreports, List.forall_mem_cons.2 ⟨?_, hrejects⟩⟩
        exact (rejects_iff path).2 ⟨o, i, is, hcheck⟩

section
variable {p : String} {branches : List Validator} {v : Value} {path : Path}

theorem hasFlaw_union_iff {a : Flaw} : (union p branches).HasFlaw v a ↔
    (∀ b ∈ branches, ∀ o, ¬ b.Accepts v o) ∧ a = .own ([], .noAlternative branches.length) := by
  rw [hasFlaw_iff]
  constructor
  · rintro (⟨⟨rest, f⟩, hv, rfl⟩ | ⟨e, c, y, b, hl, -⟩)
    · cases hv with
      | noAlternative hno => exact ⟨hno, rfl⟩
    · cases hl
  · rintro ⟨hno, rfl⟩; exact Or.inl ⟨_, .noAlternative hno, rfl⟩

theorem reports_union {o : Value} {issues : List Issue}
    (ih : ∀ b ∈ branches, ∀ o issues, b.check v path = .ok (o, issues) → b.Reports v path issues)
    (h : (union p branches).check v path = .ok (o, issues)) :
    (union p branches).Reports v path issues := by
  rw [check] at h
  obtain ⟨r, hr, h⟩ := bind_eq_ok_iff.1 h
  cases r with
  | inl output =>
    cases h
    obtain ⟨before, b, after, rfl, -, hb⟩ := (checkBranches_eq_inl_iff path).1 hr
    refine reports_iff_lists.2 (.nil fun a ha => ?_)
    exact (hasFlaw_union_iff.1 ha).1 b (by simp) _ hb
  | inr causes =>
    cases h
    obtain ⟨hreports, hrejects⟩ := reportsBranches_of_checkBranches ih hr
    have hno : ∀ b ∈ branches, ∀ o, ¬ b.Accepts v o := fun b hb o ho => ho.not_rejects (hrejects b hb)
    have hpath : path ++ (Flaw.own ([], .noAlternative branches.length)).path = path := by
      simp [Flaw.path, Flaw.own]
    have heach : (union p branches).ReportsEach v path [.own ([], .noAlternative branches.length)]
        [.mk p (path ++ (Flaw.own ([], .noAlternative branches.length)).path)
          (.noAlternative branches.length) causes] :=
      .union .here (.noAlternative hno) (by rwa [hpath]) .nil
    rw [hpath] at heach
    exact .intro _ (List.nodup_singleton _)
      (fun a => by rw [hasFlaw_union_iff, List.mem_singleton, and_iff_right hno]) heach

end

/-! ## Lists -/

section
variable {p : String} {items : Validator} {rules : ListRules} {v : Value} {path : Path}
  {xs : List Value}

theorem lists_items (hxs : v.elements? = some xs)
    (ih : ∀ x path o issues, items.check x path = .ok (o, issues) → items.Reports x path issues)
    {es : List (Value × Nat)} {checked : List (Value × List Issue)}
    (hes : ∀ e ∈ es, xs[e.2]? = some e.1) (hnodup : (es.map (·.2)).Nodup)
    (h : List.Forall₂ (fun e r => items.check e.1 (path ++ [.index e.2]) = .ok r) es checked) :
    Lists (list p items rules) v path
      (fun a => ∃ e ∈ es, ∃ b, items.HasFlaw e.1 b ∧ a = b.under (.item e.2))
      (checked.flatMap (·.2)) := by
  induction h with
  | nil => exact .nil nofun
  | @cons e r es checked hr _ ihes =>
    obtain ⟨hmem, hrest⟩ := List.forall_mem_cons.1 hes
    obtain ⟨hnew, hnodup⟩ := List.nodup_cons.1 hnodup
    have hfirst := (ih e.1 _ r.1 r.2 hr).lists_under (V := list p items rules) (e := .item e.2)
      (.item hxs hmem)
    refine (hfirst.append (ihes hrest hnodup) ?_).congr fun a => by rw [List.exists_mem_cons_iff]
    rintro a ⟨b, -, rfl⟩ ⟨e', he', b', -, heq⟩
    have hindex : e.2 = e'.2 := Edge.item.inj (Flaw.edge_eq_of_under_eq heq)
    exact hnew (List.mem_map.2 ⟨e', he', hindex.symm⟩)

theorem violates_list_iff (hxs : v.elements? = some xs) {own : List Finding}
    (hown : rules.findings xs.length = .ok own) {rest : Path} {f : Finding} :
    (list p items rules).Violates v rest f ↔
      (rest, f) ∈ own.map (fun f => (([] : Path), f)) ++
        (if rules.uniqueItems then repeats xs else []).map fun i => ([.index i], .repeatedItem) := by
  simp only [List.mem_append, List.mem_map, Prod.mk.injEq, mem_listFindings_iff hown]
  constructor
  · intro hv
    cases hv with
    | notArray h => rw [hxs] at h; cases h
    | tooFewItems h hb hn hlt =>
      rw [hxs] at h; cases h
      exact Or.inl ⟨_, Or.inl ⟨_, _, hb, hn, hlt, rfl⟩, rfl, rfl⟩
    | tooManyItems h hb hn hlt =>
      rw [hxs] at h; cases h
      exact Or.inl ⟨_, Or.inr ⟨_, _, hb, hn, hlt, rfl⟩, rfl, rfl⟩
    | repeatedItem h hu hlt hy hz hsame =>
      rw [hxs] at h; cases h
      rw [if_pos hu]
      exact Or.inr ⟨_, mem_repeats_iff.2 ⟨_, _, _, hlt, hy, hz, hsame⟩, rfl, rfl⟩
  · rintro (⟨_, ⟨b, n, hb, hn, hlt, rfl⟩ | ⟨b, n, hb, hn, hlt, rfl⟩, rfl, rfl⟩ | ⟨j, hj, rfl, rfl⟩)
    · exact .tooFewItems hxs hb hn hlt
    · exact .tooManyItems hxs hb hn hlt
    · split at hj
      next hu =>
        obtain ⟨i, y, z, hlt, hy, hz, hsame⟩ := mem_repeats_iff.1 hj
        exact .repeatedItem hxs hu hlt hy hz hsame
      next => cases hj

theorem nodup_ownOfList {own : List Finding} (hown : rules.findings xs.length = .ok own) :
    (own.map (fun f => (([] : Path), f)) ++ (if rules.uniqueItems then repeats xs else []).map
      fun i => (([.index i] : Path), Finding.repeatedItem)).Nodup := by
  rw [List.nodup_append]
  refine ⟨(nodup_listFindings hown).map fun f g h => (Prod.mk.inj h).2, ?_, ?_⟩
  · have hrepeats : (if rules.uniqueItems then repeats xs else []).Nodup := by
      split
      · exact nodup_repeatsFrom
      · exact List.nodup_nil
    refine hrepeats.map fun i j h => ?_
    simpa using h
  · intro f hf g hg heq
    obtain ⟨_, -, rfl⟩ := List.mem_map.1 hf
    obtain ⟨_, -, rfl⟩ := List.mem_map.1 hg
    cases heq

theorem reports_list {o : Value} {issues : List Issue}
    (ih : ∀ x path o issues, items.check x path = .ok (o, issues) → items.Reports x path issues)
    (h : (list p items rules).check v path = .ok (o, issues)) :
    (list p items rules).Reports v path issues := by
  rw [check] at h
  split at h
  next hv =>
    cases h
    have hleaf : ∀ e c y, ¬ (list p items rules).Leads v e c y := by
      rintro _ _ _ (_ | _ | ⟨hxs, -⟩)
      rw [hv] at hxs; cases hxs
    have honly : ∀ rest f, (list p items rules).Violates v rest f ↔
        rest = [] ∧ f ∈ [Finding.wrongKind "array" v.kind] := by
      intro rest f
      rw [List.mem_singleton]
      constructor
      · intro hviolates
        cases hviolates with
        | notArray => exact ⟨rfl, rfl⟩
        | tooFewItems hxs | tooManyItems hxs | repeatedItem hxs => rw [hv] at hxs; cases hxs
      · rintro ⟨rfl, rfl⟩; exact .notArray hv
    exact reports_findings hleaf Bool.false_ne_true (List.nodup_singleton _) honly
  next xs hv =>
    obtain ⟨checked, hc, h⟩ := bind_eq_ok_iff.1 h
    obtain ⟨own, hown, h⟩ := bind_eq_ok_iff.1 h
    cases h
    have hparts : Lists (list p items rules) v path _ (checked.flatMap (·.2)) :=
      lists_items hv ih (fun e he => List.mk_mem_zipIdx_iff_getElem?.1 he)
        (by simp [List.zipIdx_map_snd, List.nodup_range']) (mapM_eq_ok_iff.1 hc)
    have hwhole : Lists (list p items rules) v path _ _ :=
      lists_own Bool.false_ne_true (nodup_ownOfList hown) fun f hf => (violates_list_iff hv hown).2 hf
    have hall := hparts.append hwhole fun a ha ha' => by
      obtain ⟨e, -, b, -, rfl⟩ := ha
      obtain ⟨f, -, heq⟩ := ha'
      exact Flaw.own_ne_under heq.symm
    rw [List.map_append, List.map_map, List.map_map, ← List.append_assoc] at hall
    simp only [Function.comp_def, List.append_nil] at hall
    refine reports_iff_lists.2 (hall.congr fun a => ?_)
    rw [hasFlaw_iff, or_comm]
    refine or_congr ?_ ?_
    · simp only [violates_list_iff hv hown]
    · constructor
      · rintro ⟨e, he, b, hb, rfl⟩
        exact ⟨_, _, _, b, .item hv (List.mk_mem_zipIdx_iff_getElem?.1 he), hb, rfl⟩
      · rintro ⟨_, _, _, b, hl, hb, rfl⟩
        cases hl with
        | item hxs hi =>
          obtain rfl := Option.some.inj (hv.symm.trans hxs)
          exact ⟨(_, _), List.mk_mem_zipIdx_iff_getElem?.2 hi, b, hb, rfl⟩

end

/-! ## Objects -/

section
variable {p : String} {required : List Value} {closedness : Closedness} {fields : Fields} {path : Path}
  {properties : List (String × Validator)}

/-- The flaws of an object that a declared property accounts for. -/
def FlawOf (required : List Value) (fields : Fields) (q : String × Validator) (a : Flaw) : Prop :=
  (fields.named? q.1 = none ∧ .text q.1 ∈ required ∧ a = .own ([.key q.1], .missing)) ∨
    ∃ y b, fields.named? q.1 = some y ∧ q.2.HasFlaw y b ∧ a = b.under (.property q.1)

theorem FlawOf.name_eq {q q' : String × Validator} {a : Flaw} (h : FlawOf required fields q a)
    (h' : FlawOf required fields q' a) : q.1 = q'.1 := by
  rcases h with ⟨-, -, rfl⟩ | ⟨y, b, -, -, rfl⟩ <;> rcases h' with ⟨-, -, heq⟩ | ⟨y', b', -, -, heq⟩
  · have hpath := congrArg Flaw.rest heq
    simpa [Flaw.own] using hpath
  · exact absurd heq Flaw.own_ne_under
  · exact absurd heq.symm Flaw.own_ne_under
  · exact Edge.property.inj (Flaw.edge_eq_of_under_eq heq)

theorem lists_properties {ps : List (String × Validator)} (hsub : ∀ q ∈ ps, q ∈ properties)
    (hnodup : (ps.map (·.1)).Nodup)
    (ih : ∀ q ∈ properties, ∀ x path o issues, q.2.check x path = .ok (o, issues) →
      q.2.Reports x path issues) {out : Fields} {issues : List Issue}
    (h : checkProperties p required ps fields path = .ok (out, issues)) :
    Lists (object p properties required closedness) (.object fields) path
      (fun a => ∃ q ∈ ps, FlawOf required fields q a) issues := by
  induction ps generalizing out issues with
  | nil => cases h; exact .nil (by simp)
  | cons q ps ihps =>
    obtain ⟨name, V⟩ := q
    obtain ⟨hq, hps⟩ := List.forall_mem_cons.1 hsub
    obtain ⟨hnew, hnodup⟩ := List.nodup_cons.1 hnodup
    have hdisjoint : ∀ a, FlawOf required fields (name, V) a →
        ¬ ∃ q ∈ ps, FlawOf required fields q a := by
      rintro a ha ⟨q, hq, ha'⟩
      exact hnew (List.mem_map.2 ⟨q, hq, (ha.name_eq ha').symm⟩)
    rw [checkProperties] at h
    cases hx : fields.named? name with
    | none =>
      rw [hx] at h
      obtain ⟨⟨out', is⟩, hrest, h⟩ := bind_eq_ok_iff.1 h
      cases h
      have hfirst : Lists (object p properties required closedness) (.object fields) path
          (FlawOf required fields (name, V)) (if required.contains (.text name) then
            [.mk p (path ++ [.key name]) .missing []] else []) := by
        split
        next hr =>
          have hmissing : (object p properties required closedness).Violates (.object fields)
              [.key name] .missing := .missing hq (List.contains_iff_mem.1 hr) hx
          refine (lists_own (V := object p properties required closedness) Bool.false_ne_true
            (List.nodup_singleton ([.key name], .missing))
            (List.forall_mem_singleton.2 hmissing)).congr fun a => ?_
          simp [FlawOf, hx, List.contains_iff_mem.1 hr]
        next hr =>
          refine .nil fun a ha => ?_
          rcases ha with ⟨-, hmem, -⟩ | ⟨y, b, hy, -⟩
          · exact hr (List.contains_iff_mem.2 hmem)
          · rw [hx] at hy; cases hy
      exact (hfirst.append (ihps hps hnodup hrest) hdisjoint).congr fun a => by
        rw [List.exists_mem_cons_iff]
    | some x =>
      rw [hx] at h
      obtain ⟨⟨y, own⟩, hown, h⟩ := bind_eq_ok_iff.1 h
      obtain ⟨⟨out', is⟩, hrest, h⟩ := bind_eq_ok_iff.1 h
      cases h
      have hfirst := (ih _ hq x _ y own hown).lists_under (e := .property name)
        (V := object p properties required closedness) (.property hq hx)
      have hfirst' : Lists (object p properties required closedness) (.object fields) path
          (FlawOf required fields (name, V)) own := hfirst.congr fun a => by simp [FlawOf, hx]
      exact (hfirst'.append (ihps hps hnodup hrest) hdisjoint).congr fun a => by
        rw [List.exists_mem_cons_iff]

theorem violates_object_iff {rest : Path} {f : Finding} :
    (object p properties required closedness).Violates (.object fields) rest f ↔
      (∃ q ∈ properties, .text q.1 ∈ required ∧ fields.named? q.1 = none ∧ rest = [.key q.1] ∧
        f = .missing) ∨
      (closedness = .strict ∧ undeclared properties fields ≠ []) ∧ rest = [] ∧
        f = .unknownKeys (undeclared properties fields).keys := by
  constructor
  · intro h
    cases h with
    | notObject hne => exact absurd rfl (hne fields)
    | missing hq hr hx => exact Or.inl ⟨_, hq, hr, hx, rfl, rfl⟩
    | unknownKeys hne => exact Or.inr ⟨⟨rfl, hne⟩, rfl, rfl⟩
  · rintro (⟨q, hq, hr, hx, rfl, rfl⟩ | ⟨⟨rfl, hne⟩, rfl, rfl⟩)
    exacts [.missing hq hr hx, .unknownKeys hne]

theorem hasFlaw_object_iff {a : Flaw} :
    (object p properties required closedness).HasFlaw (.object fields) a ↔
      (∃ q ∈ properties, FlawOf required fields q a) ∨
      (closedness = .strict ∧ undeclared properties fields ≠ []) ∧
        a = .own ([], .unknownKeys (undeclared properties fields).keys) := by
  rw [hasFlaw_iff]
  constructor
  · rintro (⟨⟨rest, f⟩, hv, rfl⟩ | ⟨e, c, y, b, hl, hb, rfl⟩)
    · rcases violates_object_iff.1 hv with ⟨q, hq, hr, hx, rfl, rfl⟩ | ⟨hs, rfl, rfl⟩
      · exact Or.inl ⟨q, hq, Or.inl ⟨hx, hr, rfl⟩⟩
      · exact Or.inr ⟨hs, rfl⟩
    · cases hl with
      | property hq hx => exact Or.inl ⟨_, hq, Or.inr ⟨y, b, hx, hb, rfl⟩⟩
  · rintro (⟨q, hq, ⟨hx, hr, rfl⟩ | ⟨y, b, hx, hb, rfl⟩⟩ | ⟨hs, rfl⟩)
    · exact Or.inl ⟨_, violates_object_iff.2 (Or.inl ⟨q, hq, hr, hx, rfl, rfl⟩), rfl⟩
    · exact Or.inr ⟨_, _, _, b, .property hq hx, hb, rfl⟩
    · exact Or.inl ⟨_, violates_object_iff.2 (Or.inr ⟨hs, rfl, rfl⟩), rfl⟩

/-- The report of an object: what its declared properties account for, and the
    unknown keys of a strict one. -/
theorem reports_object_fields (hnodup : (properties.map (·.1)).Nodup)
    (ih : ∀ q ∈ properties, ∀ x path o issues, q.2.check x path = .ok (o, issues) →
      q.2.Reports x path issues) {o : Value} {issues : List Issue}
    (h : (object p properties required closedness).check (.object fields) path = .ok (o, issues)) :
    (object p properties required closedness).Reports (.object fields) path issues := by
  rw [check] at h
  obtain ⟨⟨out, is⟩, hprops, h⟩ := bind_eq_ok_iff.1 h
  have hlists : Lists (object p properties required closedness) (.object fields) path _ is :=
    lists_properties (fun q hq => hq) hnodup ih hprops
  have hopen : ¬ (closedness = .strict ∧ undeclared properties fields ≠ []) →
      (object p properties required closedness).Reports (.object fields) path is := fun hs =>
    reports_iff_lists.2 (hlists.congr fun a => by
      rw [hasFlaw_object_iff, or_iff_left fun ha => hs ha.1])
  cases closedness with
  | passthrough => cases h; exact hopen fun hs => by cases hs.1
  | strip => cases h; exact hopen fun hs => by cases hs.1
  | strict =>
    dsimp only at h
    split at h
    next he => cases h; exact hopen fun hs => hs.2 (List.isEmpty_iff.1 he)
    next he =>
      cases h
      have hne : undeclared properties fields ≠ [] := fun hnil => he (List.isEmpty_iff.2 hnil)
      have hunknown : Lists (object p properties required .strict) (.object fields) path _ _ :=
        lists_findings Bool.false_ne_true (List.nodup_singleton _) (List.forall_mem_singleton.2 (.unknownKeys hne))
      refine reports_iff_lists.2 ((hlists.append hunknown fun a ha ha' => ?_).congr fun a => ?_)
      · obtain ⟨f, hf, rfl⟩ := ha'
        obtain rfl := List.mem_singleton.1 hf
        obtain ⟨q, -, ⟨-, -, heq⟩ | ⟨y, b, -, -, heq⟩⟩ := ha
        · cases heq
        · exact Flaw.own_ne_under heq
      · rw [hasFlaw_object_iff]
        simp [hne]

end

/-! ## Trees -/

/-- **Reports are sound and complete.** What a check finds wrong are the flaws of
    the value, each once, and the causes of a failed union are what its branches
    report. -/
theorem reports_of_check {V : Validator} (hd : V.DistinctNames) {v : Value} {path : Path} {o : Value}
    {issues : List Issue} (h : V.check v path = .ok (o, issues)) : V.Reports v path issues := by
  induction V generalizing v path o issues with
  | any p => cases h; exact reports_none (not_leads rfl) fun rest f hf => by cases hf
  | never p => exact reports_never h
  | literal p expected => exact reports_literal h
  | options p choices => exact reports_options h
  | union p branches ih => exact reports_union (fun b hb o issues => ih b hb (hd.child hb)) h
  | both p left right ihl ihr =>
    exact reports_both (fun o issues => ihl (hd.child (by simp [children])))
      (fun o issues => ihr (hd.child (by simp [children]))) h
  | kind p expected => exact reports_kind h
  | text p rules => exact reports_text h
  | number p rules => exact reports_number h
  | list p items rules ih =>
    exact reports_list (fun x path o issues => ih (hd.child (by simp [children]))) h
  | object p properties required closedness ih =>
    cases v with
    | object fields =>
      exact reports_object_fields hd.self (fun q hq x path o issues =>
        ih q hq (hd.child (List.mem_map_of_mem hq))) h
    | _ =>
      refine reports_reject (V := .object p properties required closedness)
        (fun e c y hl => by cases hl) Bool.false_ne_true
        (.notObject fun fields heq => by cases heq) (fun rest g hg => ?_) h
      cases hg; exact ⟨rfl, rfl⟩

/-! ## Causes -/

/-- A failed union has a cause for each branch, at least. -/
def HasCauses (i : Issue) : Prop := ∀ n, i.finding = .noAlternative n → n ≤ i.causes.length

theorem ReportsBranches.length_le {branches : List Validator} {x : Value} {path : Path}
    {causes : List Issue} (h : ReportsBranches branches x path causes) :
    branches.length ≤ causes.length := by
  induction branches generalizing causes with
  | nil => exact Nat.zero_le _
  | cons b bs ih =>
    cases h with
    | cons _ hne h =>
      have hpos := List.length_pos_iff.2 hne
      have hrest := ih h
      rw [List.length_cons, List.length_append]
      omega

theorem Violates.isUnion_of_noAlternative {W : Validator} {x : Value} {rest : Path} {n : Nat}
    (h : W.Violates x rest (.noAlternative n)) : ∃ p branches, W = .union p branches ∧ n = branches.length := by
  cases h
  exact ⟨_, _, rfl, rfl⟩

mutual
theorem Reports.hasCauses {V : Validator} {v : Value} {path : Path} {issues : List Issue}
    (h : V.Reports v path issues) : ∀ i ∈ Issue.allOf issues, HasCauses i :=
  match h with
  | .intro _ _ _ heach => heach.hasCauses
theorem ReportsEach.hasCauses {V : Validator} {v : Value} {path : Path} {found : List Flaw}
    {issues : List Issue} (h : V.ReportsEach v path found issues) :
    ∀ i ∈ Issue.allOf issues, HasCauses i :=
  match h with
  | .nil => nofun
  | .plain hr hv hu hrest => fun i hi => by
    rcases Issue.mem_allOf_cons.1 hi with rfl | hi | hi
    · intro n hn
      rw [Issue.finding] at hn
      rw [hn] at hv
      obtain ⟨p, branches, rfl, -⟩ := hv.isUnion_of_noAlternative
      exact absurd rfl hu
    · cases hi
    · exact hrest.hasCauses i hi
  | .union hr hv hb hrest => fun i hi => by
    rcases Issue.mem_allOf_cons.1 hi with rfl | hi | hi
    · intro n hn
      rw [Issue.finding] at hn
      rw [hn] at hv
      obtain ⟨_, _, ⟨⟩, rfl⟩ := hv.isUnion_of_noAlternative
      exact hb.length_le
    · exact hb.hasCauses i hi
    · exact hrest.hasCauses i hi
theorem ReportsBranches.hasCauses {branches : List Validator} {x : Value} {path : Path}
    {causes : List Issue} (h : ReportsBranches branches x path causes) :
    ∀ i ∈ Issue.allOf causes, HasCauses i :=
  match h with
  | .nil => nofun
  | .cons hb _ hrest => fun i hi => by
    rw [Issue.allOf_append, List.mem_append] at hi
    rcases hi with hi | hi
    · exact hb.hasCauses i hi
    · exact hrest.hasCauses i hi
end

theorem Reports.eq_nil_iff {V : Validator} {v : Value} {path : Path} {issues : List Issue}
    (h : V.Reports v path issues) : issues = [] ↔ ∀ a, ¬ V.HasFlaw v a := by
  obtain ⟨found, -, hmem, heach⟩ := h
  have hnil : issues = [] ↔ found = [] := by cases heach <;> simp
  rw [hnil, List.eq_nil_iff_forall_not_mem]
  exact forall_congr' fun a => not_congr (hmem a)

end Validator

end SchemaGuard
