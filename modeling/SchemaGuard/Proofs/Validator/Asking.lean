/-
  SchemaGuard — which nodes are asked about which parts.

  `V.Asks v place W x`: in checking `v`, the tree `V` asks its node `W` about the part
  `x` at `place`. A branch of a union is asked if all branches before it reject; below
  all other nodes every tree is asked.

  * `Asks.part?_eq`: the place leads to the part; `Asks.settles`: where a check ends
    without a fault, so do those of all nodes that are asked;
  * `Reports.exists_asks`: every issue, at any depth, is a violation by a node that is
    asked;
  * `V.Meets v f`: a node is asked about something at which its check ends with the
    fault `f`. A check ends with a fault only where one is met
    (`Meets.of_check_eq_error`), and with none only where none is (`Meets.not_settles`).
-/
import SchemaGuard.Proofs.Validator.Cleaning
import SchemaGuard.Proofs.Validator.Reporting
import SchemaGuard.Proofs.Value.Location

namespace SchemaGuard

namespace Validator

open Value

/-- In checking `v`, `V` asks its node `W` about the part `x` at `place`. -/
inductive Asks : Validator → Value → Path → Validator → Value → Prop
  | here {V v} : Asks V v [] V v
  | step {V v e c y place W x} : V.Leads v e c y → Asks c y place W x →
      Asks V v (e.steps ++ place) W x
  | branch {p before b after v place W x} : (∀ c ∈ before, c.Rejects v) → Asks b v place W x →
      Asks (.union p (before ++ b :: after)) v place W x

section
variable {V W U c : Validator} {v x y : Value} {place rest : Path} {e : Edge} {es : List Edge}

theorem Leads.part?_eq (h : V.Leads v e c y) : v.part? e.steps = some y := by
  cases h with
  | left | right => rfl
  | item hxs hi => rw [Edge.steps, part?_cons, enter?_index hxs, hi]; rfl
  | property _ hx => rw [Edge.steps, part?_cons, enter?, hx]; rfl

theorem Asks.part?_eq (h : V.Asks v place W x) : v.part? place = some x := by
  induction h with
  | here => rfl
  | step hl _ ih => rw [part?_append, hl.part?_eq, Option.bind_some, ih]
  | branch _ _ ih => exact ih

theorem Asks.trans (h : V.Asks v place W x) (h' : W.Asks x rest U y) :
    V.Asks v (place ++ rest) U y := by
  induction h with
  | here => exact h'
  | step hl _ ih => rw [List.append_assoc]; exact .step hl (ih h')
  | branch hb _ ih => exact .branch hb (ih h')

theorem Reaches.asks (h : V.Reaches v es W x) : V.Asks v (es.flatMap Edge.steps) W x := by
  induction h with
  | here => exact .here
  | step hl _ ih => rw [List.flatMap_cons]; exact .step hl ih

theorem Asks.mem_nodes (h : V.Asks v place W x) : W ∈ V.nodes := by
  induction h with
  | here => exact self_mem_nodes _
  | step hl _ ih => exact mem_nodes_iff.2 (Or.inr ⟨_, hl.mem_children, ih⟩)
  | branch _ _ ih => exact mem_nodes_iff.2 (Or.inr ⟨_, by simp [children], ih⟩)

/-! ## Checks without a fault -/

theorem Leads.settles (h : V.Leads v e c y) (hs : V.Settles v) : c.Settles y := by
  cases h with
  | left => exact (settles_both_iff.1 hs).1
  | right => exact (settles_both_iff.1 hs).2
  | item hxs hi => exact (settles_list_iff.1 hs _ hxs).1 _ (List.mem_of_getElem? hi)
  | property hq hx => exact settles_object_iff.1 hs _ rfl _ hq _ hx

/-- A union that comes to an end has asked the branch behind those that reject. -/
theorem settles_branch {p : String} {before after : List Validator} {b : Validator}
    (hb : ∀ c ∈ before, c.Rejects v) (hs : (union p (before ++ b :: after)).Settles v) : b.Settles v := by
  induction before with
  | nil =>
    rcases settles_union_cons_iff.1 hs with ⟨o, ho⟩ | ⟨hb, -⟩
    exacts [ho.settles, hb.settles]
  | cons c before ih =>
    obtain ⟨hc, hbefore⟩ := List.forall_mem_cons.1 hb
    rcases settles_union_cons_iff.1 hs with ⟨o, ho⟩ | ⟨-, hs⟩
    · exact absurd hc ho.not_rejects
    · exact ih hbefore hs

theorem Asks.settles (h : V.Asks v place W x) (hs : V.Settles v) : W.Settles x := by
  induction h with
  | here => exact hs
  | step hl _ ih => exact ih (hl.settles hs)
  | branch hb _ ih => exact ih (settles_branch hb hs)

/-- All branches of a union reject if it comes to an end and none of them accepts. -/
theorem rejects_of_settles_union {p : String} {branches : List Validator}
    (hs : (union p branches).Settles v) (hno : ∀ b ∈ branches, ∀ o, ¬ b.Accepts v o) :
    ∀ b ∈ branches, b.Rejects v := by
  induction branches with
  | nil => nofun
  | cons b bs ih =>
    obtain ⟨hb, hbs⟩ := List.forall_mem_cons.1 hno
    rcases settles_union_cons_iff.1 hs with ⟨o, ho⟩ | ⟨hrejects, hs⟩
    · exact absurd ho (hb o)
    · exact List.forall_mem_cons.2 ⟨hrejects, ih hs hbs⟩

/-- Every branch is asked if all of them reject. -/
theorem Asks.of_mem {p : String} {branches : List Validator} {b : Validator} (hb : b ∈ branches)
    (hrejects : ∀ c ∈ branches, c.Rejects v) (h : b.Asks v place W x) :
    (union p branches).Asks v place W x := by
  obtain ⟨before, after, rfl⟩ := List.append_of_mem hb
  exact .branch (fun c hc => hrejects c (List.mem_append_left _ hc)) h

end

/-! ## Where issues come from -/

theorem Violates.of_union {p : String} {branches : List Validator} {x : Value} {rest : Path} {f : Finding}
    (h : (union p branches).Violates x rest f) : rest = [] ∧ ∀ b ∈ branches, ∀ o, ¬ b.Accepts x o := by
  cases h with
  | noAlternative hno => exact ⟨rfl, hno⟩

/-- A node that a value violates rejects it, if its check comes to an end. -/
theorem Violates.rejects {W : Validator} {x : Value} {rest : Path} {f : Finding} (hd : W.DistinctNames)
    (hs : W.Settles x) (h : W.Violates x rest f) : W.Rejects x := by
  rcases settles_iff.1 hs with ⟨o, ho⟩ | hrejects
  · have hflawless := (reports_of_check hd ho).eq_nil_iff.1 rfl
    exact absurd ⟨W, x, .here, h⟩ (hflawless (.own (rest, f)))
  · exact hrejects

/-- An issue is a violation by a node that is asked about a part. -/
def Traces (V : Validator) (v : Value) (path : Path) (i : Issue) : Prop :=
  ∃ place W x rest, V.Asks v place W x ∧ W.Violates x rest i.finding ∧ W.pointer = i.pointer ∧
    i.path = path ++ (place ++ rest)

theorem Traces.of_asks {V W : Validator} {v x : Value} {path place : Path} {i : Issue}
    (h : V.Asks v place W x) (hi : W.Traces x (path ++ place) i) : V.Traces v path i := by
  obtain ⟨place', U, y, rest, hask, hviolates, hpointer, hpath⟩ := hi
  refine ⟨place ++ place', U, y, rest, h.trans hask, hviolates, hpointer, ?_⟩
  rw [hpath, List.append_assoc, List.append_assoc]

theorem Traces.of_flaw {V W : Validator} {v x : Value} {path : Path} {a : Flaw} {causes : List Issue}
    (hr : V.Reaches v a.edges W x) (hv : W.Violates x a.rest a.finding) :
    V.Traces v path (.mk W.pointer (path ++ a.path) a.finding causes) :=
  ⟨_, W, x, a.rest, hr.asks, hv, rfl, rfl⟩

mutual
/-- Every issue, at any depth, is a violation by a node that is asked. -/
theorem Reports.exists_asks {V : Validator} {v : Value} {path : Path} {issues : List Issue}
    (h : V.Reports v path issues) (hs : V.Settles v) : ∀ i ∈ Issue.allOf issues, V.Traces v path i :=
  match h with
  | .intro _ _ _ heach => heach.exists_asks hs
theorem ReportsEach.exists_asks {V : Validator} {v : Value} {path : Path} {found : List Flaw}
    {issues : List Issue} (h : V.ReportsEach v path found issues) (hs : V.Settles v) :
    ∀ i ∈ Issue.allOf issues, V.Traces v path i :=
  match h with
  | .nil => nofun
  | .plain hr hv _ hrest => fun i hi => by
    rcases Issue.mem_allOf_cons.1 hi with rfl | hi | hi
    · exact .of_flaw hr hv
    · cases hi
    · exact hrest.exists_asks hs i hi
  | .union (a := a) hr hv hb hrest => fun i hi => by
    rcases Issue.mem_allOf_cons.1 hi with rfl | hi | hi
    · exact .of_flaw hr hv
    · -- a failed union is asked at the place of its flaw, and has asked all its branches
      obtain ⟨hnil, hno⟩ := hv.of_union
      have hrejects := rejects_of_settles_union (hr.asks.settles hs) hno
      obtain ⟨b, hmem, htraces⟩ := hb.exists_asks (fun b hb => (hrejects b hb).settles) i hi
      have hpath : a.path = a.edges.flatMap Edge.steps ++ [] := by rw [Flaw.path, hnil]
      rw [hpath] at htraces
      exact .of_asks (hr.asks.trans (.of_mem hmem hrejects .here)) htraces
    · exact hrest.exists_asks hs i hi
theorem ReportsBranches.exists_asks {branches : List Validator} {x : Value} {path : Path}
    {causes : List Issue} (h : ReportsBranches branches x path causes)
    (hs : ∀ b ∈ branches, b.Settles x) :
    ∀ i ∈ Issue.allOf causes, ∃ b ∈ branches, b.Traces x path i :=
  match h with
  | .nil => nofun
  | .cons hb _ hrest => fun i hi => by
    obtain ⟨hsb, hsrest⟩ := List.forall_mem_cons.1 hs
    rw [Issue.allOf_append, List.mem_append] at hi
    rcases hi with hi | hi
    · exact ⟨_, List.mem_cons_self, hb.exists_asks hsb i hi⟩
    · obtain ⟨b, hmem, htraces⟩ := hrest.exists_asks hsrest i hi
      exact ⟨b, List.mem_cons_of_mem _ hmem, htraces⟩
end

/-! ## Where faults come from -/

section
variable {ε α β : Type}

theorem bind_eq_error_iff {x : Except ε α} {f : α → Except ε β} {e : ε} :
    x >>= f = .error e ↔ x = .error e ∨ ∃ a, x = .ok a ∧ f a = .error e := by
  cases x <;> simp [bind, Except.bind]

theorem exists_of_mapM_eq_error {f : α → Except ε β} {xs : List α} {e : ε} (h : xs.mapM f = .error e) :
    ∃ x ∈ xs, f x = .error e := by
  induction xs with
  | nil => cases h
  | cons x xs ih =>
    rw [List.mapM_cons] at h
    rcases bind_eq_error_iff.1 h with hx | ⟨y, -, h⟩
    · exact ⟨x, List.mem_cons_self, hx⟩
    · rcases bind_eq_error_iff.1 h with hxs | ⟨ys, -, h⟩
      · obtain ⟨x, hx, he⟩ := ih hxs
        exact ⟨x, List.mem_cons_of_mem _ hx, he⟩
      · cases h

end

/-- In checking `v`, a node is asked about something at which its own check ends with a fault. -/
inductive Meets (V : Validator) (v : Value) : Fault → Prop
  /-- a number node is asked about an integer that is too large for a double -/
  | hugeInteger {place p rules n} : V.Asks v place (.number p rules) (.int n) →
      ¬ withinDoubleRange n → Meets V v .integerTooLarge
  /-- the length of a text has a bound that is no number -/
  | unorderedLength {place p rules s b} : V.Asks v place (.text p rules) (.text s) →
      b ∈ (text p rules).sizeBounds → bound? b = none → Meets V v .boundNotNumber
  /-- the number of elements has a bound that is no number -/
  | unorderedCount {place p items rules x xs b} : V.Asks v place (.list p items rules) x →
      x.elements? = some xs → b ∈ (list p items rules).sizeBounds → bound? b = none →
      Meets V v .boundNotNumber

theorem Meets.of_asks {V W : Validator} {v x : Value} {place : Path} {f : Fault}
    (h : V.Asks v place W x) (hW : W.Meets x f) : V.Meets v f := by
  cases hW with
  | hugeInteger hask hn => exact .hugeInteger (h.trans hask) hn
  | unorderedLength hask hb hn => exact .unorderedLength (h.trans hask) hb hn
  | unorderedCount hask hxs hb hn => exact .unorderedCount (h.trans hask) hxs hb hn

/-- With numbers as bounds only huge integers can be met. -/
theorem NumericSizes.not_meets {V : Validator} (hn : V.NumericSizes) (v : Value) :
    ¬ V.Meets v .boundNotNumber := by
  have hbounds {W : Validator} {x b : Value} {place : Path} (hask : V.Asks v place W x)
      (hb : b ∈ W.sizeBounds) : bound? b ≠ none := Option.isSome_iff_ne_none.1 (hn W hask.mem_nodes b hb)
  intro h
  cases h with
  | unorderedLength hask hb hnone => exact hbounds hask hb hnone
  | unorderedCount hask _ hb hnone => exact hbounds hask hb hnone

theorem Leads.asks {V c : Validator} {v y : Value} {e : Edge} (h : V.Leads v e c y) :
    V.Asks v (e.steps ++ []) c y := .step h .here

theorem isFiniteNumber_eq_error_iff {v : Value} {f : Fault} :
    isFiniteNumber v = .error f ↔ f = .integerTooLarge ∧ ∃ n, v = .int n ∧ ¬ withinDoubleRange n := by
  unfold isFiniteNumber
  split
  next n =>
    by_cases hn : withinDoubleRange n
    · simp [hn]
    · rw [if_neg hn]
      constructor
      · rintro ⟨⟩; exact ⟨rfl, n, rfl, hn⟩
      · rintro ⟨rfl, -⟩; rfl
  next => simp
  next hne _ => simpa using fun _ n heq => absurd heq (hne n)

theorem sizeFindings_eq_error_iff {limit : Option Value} {violates : Number → Bool}
    {finding : Value → Finding} {f : Fault} :
    sizeFindings limit violates finding = .error f ↔
      f = .boundNotNumber ∧ ∃ b ∈ limit, bound? b = none := by
  unfold sizeFindings
  split
  next => simp
  next b =>
    split
    next hb => simp [hb, eq_comm]
    next hb => simp [hb]

/-- Two bounds on a size fault if one of them is no number. -/
theorem sizes_eq_error_iff {α : Type} {low high : Option Value} {below above : Number → Bool}
    {short long : Value → Finding} {rest : List Finding → List Finding → α} {f : Fault} :
    (do return rest (← sizeFindings low below short) (← sizeFindings high above long)) = .error f ↔
      f = .boundNotNumber ∧ ∃ b ∈ low.toList ++ high.toList, bound? b = none := by
  simp only [bind_eq_error_iff, sizeFindings_eq_error_iff, pure, Except.pure, reduceCtorEq, and_false,
    exists_false, or_false, List.mem_append, Option.mem_toList, or_and_right, exists_or, and_or_left]
  constructor
  · rintro (h | ⟨-, -, h⟩)
    exacts [Or.inl h, Or.inr h]
  · rintro (h | ⟨rfl, h⟩)
    · exact Or.inl h
    · cases hlow : sizeFindings low below short with
      | ok fs => exact Or.inr ⟨fs, rfl, rfl, h⟩
      | error f => exact Or.inl ⟨rfl, (sizeFindings_eq_error_iff.1 hlow).2⟩

theorem TextRules.findings_eq_error_iff {p : String} {rules : TextRules} {s : String} {f : Fault} :
    rules.findings s = .error f ↔
      f = .boundNotNumber ∧ ∃ b ∈ (text p rules).sizeBounds, bound? b = none :=
  sizes_eq_error_iff

theorem ListRules.findings_eq_error_iff (p : String) (items : Validator) {rules : ListRules} {count : Nat}
    {f : Fault} : rules.findings count = .error f ↔
      f = .boundNotNumber ∧ ∃ b ∈ (list p items rules).sizeBounds, bound? b = none :=
  sizes_eq_error_iff

section
variable {v : Value} {path : Path} {f : Fault} {p : String}

/-- Branches end with a fault at the first one that does not reject. -/
theorem exists_of_checkBranches_eq_error {branches : List Validator}
    (h : checkBranches branches v path = .error f) :
    ∃ before b after, branches = before ++ b :: after ∧ (∀ c ∈ before, c.Rejects v) ∧
      b.check v path = .error f := by
  induction branches with
  | nil => cases h
  | cons b bs ih =>
    rw [checkBranches] at h
    rcases bind_eq_error_iff.1 h with hb | ⟨⟨o, _ | ⟨i, is⟩⟩, hb, h⟩
    · exact ⟨[], b, bs, rfl, List.forall_mem_nil _, hb⟩
    · cases h
    · rcases bind_eq_error_iff.1 h with hbs | ⟨_ | _, -, h⟩
      · obtain ⟨before, c, after, rfl, hbefore, hc⟩ := ih hbs
        have hrejects : b.Rejects v := (rejects_iff path).2 ⟨o, i, is, hb⟩
        exact ⟨b :: before, c, after, rfl, List.forall_mem_cons.2 ⟨hrejects, hbefore⟩, hc⟩
      all_goals cases h

theorem exists_of_checkProperties_eq_error {required : List Value} {fields : Fields}
    {properties : List (String × Validator)}
    (h : checkProperties p required properties fields path = .error f) :
    ∃ q ∈ properties, ∃ x, fields.named? q.1 = some x ∧ q.2.check x (path ++ [.key q.1]) = .error f := by
  induction properties with
  | nil => cases h
  | cons q qs ih =>
    obtain ⟨name, V⟩ := q
    rw [checkProperties] at h
    have hrest : checkProperties p required qs fields path = .error f →
        ∃ q ∈ (name, V) :: qs, ∃ x, fields.named? q.1 = some x ∧
          q.2.check x (path ++ [.key q.1]) = .error f := fun h => by
      obtain ⟨q, hq, hx⟩ := ih h
      exact ⟨q, List.mem_cons_of_mem _ hq, hx⟩
    split at h
    next hx =>
      rcases bind_eq_error_iff.1 h with h | ⟨r, -, h⟩
      · exact hrest h
      · cases h
    next x hx =>
      rcases bind_eq_error_iff.1 h with hV | ⟨r, -, h⟩
      · exact ⟨(name, V), List.mem_cons_self, x, hx, hV⟩
      · rcases bind_eq_error_iff.1 h with h | ⟨r, -, h⟩
        · exact hrest h
        · cases h

end

/-- **What ends a check with a fault** is met in it. -/
theorem Meets.of_check_eq_error {V : Validator} {v : Value} {path : Path} {f : Fault}
    (h : V.check v path = .error f) : V.Meets v f := by
  induction V generalizing v path with
  | any p => cases h
  | never p => cases h
  | literal p expected => rw [check] at h; split at h <;> cases h
  | options p choices =>
    rw [check] at h
    split at h
    · split at h <;> cases h
    · cases h
  | kind p expected => rw [check] at h; split at h <;> cases h
  | text p rules =>
    rw [check] at h
    split at h
    next => cases h
    next s hs =>
      obtain rfl := text?_eq_some_iff.1 hs
      rcases bind_eq_error_iff.1 h with hfs | ⟨fs, -, h⟩
      · obtain ⟨rfl, b, hb, hnone⟩ := (TextRules.findings_eq_error_iff (p := p)).1 hfs
        exact .unorderedLength .here hb hnone
      · cases h
  | number p rules =>
    rw [check] at h
    rcases bind_eq_error_iff.1 h with hfinite | ⟨b, -, h⟩
    · obtain ⟨rfl, n, rfl, hhuge⟩ := isFiniteNumber_eq_error_iff.1 hfinite
      exact .hugeInteger .here hhuge
    · split at h <;> cases h
  | union p branches ih =>
    rw [check] at h
    rcases bind_eq_error_iff.1 h with hbs | ⟨_ | _, -, h⟩
    · obtain ⟨before, b, after, rfl, hbefore, hb⟩ := exists_of_checkBranches_eq_error hbs
      exact .of_asks (.branch hbefore .here) (ih b (by simp) hb)
    all_goals cases h
  | both p left right ihl ihr =>
    rw [check_both] at h
    rcases bind_eq_error_iff.1 h with hl | ⟨⟨lo, li⟩, -, h⟩
    · exact .of_asks (Leads.asks .left) (ihl hl)
    · rcases bind_eq_error_iff.1 h with hr | ⟨⟨ro, ri⟩, -, h⟩
      · exact .of_asks (Leads.asks .right) (ihr hr)
      · dsimp only at h
        split at h <;> cases h
  | list p items rules ih =>
    rw [check] at h
    split at h
    next => cases h
    next xs hxs =>
      rcases bind_eq_error_iff.1 h with hitem | ⟨checked, -, h⟩
      · obtain ⟨⟨x, i⟩, hmem, hx⟩ := exists_of_mapM_eq_error hitem
        have hi : xs[i]? = some x := List.mk_mem_zipIdx_iff_getElem?.1 hmem
        exact .of_asks (Leads.asks (.item hxs hi)) (ih hx)
      · rcases bind_eq_error_iff.1 h with hfs | ⟨fs, -, h⟩
        · obtain ⟨rfl, b, hb, hnone⟩ := (ListRules.findings_eq_error_iff p items).1 hfs
          exact .unorderedCount .here hxs hb hnone
        · cases h
  | object p properties required closedness ih =>
    cases v with
    | object fields =>
      rw [check] at h
      rcases bind_eq_error_iff.1 h with hps | ⟨⟨out, is⟩, -, h⟩
      · obtain ⟨q, hq, x, hx, herror⟩ := exists_of_checkProperties_eq_error hps
        exact .of_asks (Leads.asks (.property hq hx)) (ih q hq herror)
      · cases closedness with
        | strict => dsimp only at h; split at h <;> cases h
        | _ => cases h
    | _ => cases h

/-- A check in which a fault is met does not come to its end. -/
theorem Meets.not_settles {V : Validator} {v : Value} {f : Fault} (h : V.Meets v f) : ¬ V.Settles v := by
  intro hs
  cases h with
  | hugeInteger hask hhuge =>
    obtain ⟨outcome, hsettles⟩ := hask.settles hs
    rw [check, isFiniteNumber_eq_error_iff.2 ⟨rfl, _, rfl, hhuge⟩] at hsettles
    cases hsettles
  | unorderedLength hask hb hnone =>
    obtain ⟨outcome, hsettles⟩ := hask.settles hs
    obtain ⟨fs, hfs, -⟩ := bind_eq_ok_iff.1 hsettles
    rw [TextRules.findings_eq_error_iff.2 ⟨rfl, _, hb, hnone⟩] at hfs
    cases hfs
  | unorderedCount hask hxs hb hnone =>
    obtain ⟨-, fs, hfs⟩ := settles_list_iff.1 (hask.settles hs) _ hxs
    rw [(ListRules.findings_eq_error_iff _ _).2 ⟨rfl, _, hb, hnone⟩] at hfs
    cases hfs

/-- **When there is a verdict.** A run ends with one exactly where no fault is met. -/
theorem exists_run_iff {V : Validator} {v : Value} :
    (∃ verdict, V.run v = .ok verdict) ↔ ∀ f, ¬ V.Meets v f := by
  constructor
  · rintro hrun f h
    exact h.not_settles (settles_iff_run.2 hrun)
  · intro hno
    cases hrun : V.run v with
    | ok verdict => exact ⟨verdict, rfl⟩
    | error f =>
      rcases bind_eq_error_iff.1 hrun with h | ⟨r, -, h⟩
      · exact absurd (.of_check_eq_error h) (hno f)
      · cases h

theorem Meets.of_run_eq_error {V : Validator} {v : Value} {f : Fault} (h : V.run v = .error f) :
    V.Meets v f := by
  rcases bind_eq_error_iff.1 h with h | ⟨r, -, h⟩
  · exact .of_check_eq_error h
  · cases h

end Validator

end SchemaGuard
