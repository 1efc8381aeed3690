/-
  SchemaGuard — what the rules of a node find.

  A finding that the rules of a text, a number or a list give is a violation of
  one demand (`Violates`), and every violation is found, once.
-/
import SchemaGuard.Proofs.Validator.Violations

namespace SchemaGuard

namespace Validator

/-! ## Single bounds -/

theorem mem_findingIf_iff {violated : Bool} {f g : Finding} :
    g ∈ findingIf violated f ↔ violated ∧ g = f := by
  cases violated <;> simp [findingIf]

theorem nodup_findingIf (violated : Bool) (f : Finding) : (findingIf violated f).Nodup := by
  cases violated <;> simp [findingIf]

theorem mem_limitFindings_iff {limit : Option Number} {violates : Number → Bool}
    {finding : Number → Finding} {g : Finding} :
    g ∈ limitFindings limit violates finding ↔ ∃ n, limit = some n ∧ violates n ∧ g = finding n := by
  cases limit <;> simp [limitFindings, mem_findingIf_iff]

theorem nodup_limitFindings (limit : Option Number) (violates : Number → Bool)
    (finding : Number → Finding) : (limitFindings limit violates finding).Nodup := by
  cases limit with
  | none => exact List.nodup_nil
  | some n => exact nodup_findingIf _ _

section
variable {limit : Option Value} {violates : Number → Bool} {finding : Value → Finding}
  {fs : List Finding}

theorem mem_sizeFindings_iff (h : sizeFindings limit violates finding = .ok fs) {g : Finding} :
    g ∈ fs ↔ ∃ b n, limit = some b ∧ bound? b = some n ∧ violates n ∧ g = finding b := by
  unfold sizeFindings at h
  cases limit with
  | none => cases h; simp
  | some b =>
    cases hb : bound? b with
    | none => simp [hb] at h
    | some n =>
      simp only [hb, Except.ok.injEq] at h
      subst h
      simp [mem_findingIf_iff, hb]

theorem nodup_sizeFindings (h : sizeFindings limit violates finding = .ok fs) : fs.Nodup := by
  unfold sizeFindings at h
  split at h
  next => cases h; exact List.nodup_nil
  next =>
    split at h
    next => cases h
    next => cases h; exact nodup_findingIf _ _

end

/-! ## Texts -/

section
variable {p : String} {rules : TextRules} {s : String} {fs : List Finding}

/-- The findings of the four rules for texts. -/
theorem TextRules.findings_eq_ok (h : rules.findings s = .ok fs) : ∃ short long mismatch,
    sizeFindings rules.minLength ((Number.int s.length).lt ·) .tooShort = .ok short ∧
    sizeFindings rules.maxLength (·.lt (Number.int s.length)) .tooLong = .ok long ∧
    (mismatch.Nodup ∧ ∀ f, f ∈ mismatch ↔ ∃ q, rules.pattern = some q ∧ ¬ q.search s ∧
      f = .patternMismatch (rules.patternSource.getD .null)) ∧
    fs = short ++ long ++ mismatch ++ findingIf (rules.dateTime && !Timestamp.isDateTime s) .notDateTime := by
  unfold TextRules.findings at h
  obtain ⟨short, hs, h⟩ := bind_eq_ok_iff.1 h
  obtain ⟨long, hl, h⟩ := bind_eq_ok_iff.1 h
  cases h
  refine ⟨short, long, _, hs, hl, ?_, rfl⟩
  cases rules.pattern with
  | none => exact ⟨List.nodup_nil, by simp⟩
  | some q => exact ⟨nodup_findingIf _ _, by simp [mem_findingIf_iff]⟩

theorem mem_textFindings_iff (h : rules.findings s = .ok fs) {f : Finding} :
    f ∈ fs ↔ Violates (.text p rules) (.text s) [] f := by
  obtain ⟨short, long, mismatch, hs, hl, ⟨-, hm⟩, rfl⟩ := TextRules.findings_eq_ok h
  simp only [List.mem_append, mem_sizeFindings_iff hs, mem_sizeFindings_iff hl, hm, mem_findingIf_iff,
    Bool.and_eq_true, Bool.not_eq_true']
  constructor
  · rintro (((⟨b, n, hb, hn, hlt, rfl⟩ | ⟨b, n, hb, hn, hlt, rfl⟩) | ⟨q, hq, hsearch, rfl⟩) | ⟨⟨hd, hdt⟩, rfl⟩)
    exacts [.tooShort hb hn hlt, .tooLong hb hn hlt, .patternMismatch hq hsearch,
      .notDateTime hd (by simp [hdt])]
  · intro hv
    cases hv with
    | notText hne => exact absurd rfl (hne s)
    | tooShort hb hn hlt => exact Or.inl (Or.inl (Or.inl ⟨_, _, hb, hn, hlt, rfl⟩))
    | tooLong hb hn hlt => exact Or.inl (Or.inl (Or.inr ⟨_, _, hb, hn, hlt, rfl⟩))
    | patternMismatch hq hsearch => exact Or.inl (Or.inr ⟨_, hq, hsearch, rfl⟩)
    | notDateTime hd hdt => exact Or.inr ⟨⟨hd, by simpa using hdt⟩, rfl⟩

theorem nodup_textFindings (h : rules.findings s = .ok fs) : fs.Nodup := by
  obtain ⟨short, long, mismatch, hs, hl, ⟨hnodup, hm⟩, rfl⟩ := TextRules.findings_eq_ok h
  simp only [List.nodup_append, List.mem_append, mem_sizeFindings_iff hs, mem_sizeFindings_iff hl, hm,
    mem_findingIf_iff]
  refine ⟨⟨⟨nodup_sizeFindings hs, nodup_sizeFindings hl, ?_⟩, hnodup, ?_⟩, nodup_findingIf _ _, ?_⟩
  · rintro _ ⟨b, n, -, -, -, rfl⟩ _ ⟨b', n', -, -, -, rfl⟩; rintro ⟨⟩
  · rintro _ (⟨b, n, -, -, -, rfl⟩ | ⟨b, n, -, -, -, rfl⟩) _ ⟨q, -, -, rfl⟩ <;> rintro ⟨⟩
  · rintro _ ((⟨b, n, -, -, -, rfl⟩ | ⟨b, n, -, -, -, rfl⟩) | ⟨q, -, -, rfl⟩) _ ⟨-, rfl⟩ <;> rintro ⟨⟩

end

/-! ## Numbers -/

section
variable {p : String} {rules : NumberRules} {n : Number}

theorem mem_numberFindings_iff (hfinite : isFiniteNumber (.number n) = .ok true) {f : Finding} :
    f ∈ rules.findings n ↔ Violates (.number p rules) (.number n) [] f := by
  simp only [NumberRules.findings, List.mem_append, mem_findingIf_iff, mem_limitFindings_iff,
    Bool.and_eq_true, Bool.not_eq_true']
  constructor
  · rintro ((((⟨⟨hi, hw⟩, rfl⟩ | ⟨b, hb, hlt, rfl⟩) | ⟨b, hb, hle, rfl⟩) | ⟨b, hb, hlt, rfl⟩) |
      ⟨b, hb, hle, rfl⟩)
    exacts [.fractional hfinite hi (by simp [hw]), .belowMinimum hfinite hb hlt,
      .notAboveMinimum hfinite hb hle, .aboveMaximum hfinite hb hlt, .notBelowMaximum hfinite hb hle]
  · intro hv
    cases hv with
    | notNumber hne => exact absurd hfinite hne
    | fractional _ hi hw => exact Or.inl (Or.inl (Or.inl (Or.inl ⟨⟨hi, by simpa using hw⟩, rfl⟩)))
    | belowMinimum _ hb hlt => exact Or.inl (Or.inl (Or.inl (Or.inr ⟨_, hb, hlt, rfl⟩)))
    | notAboveMinimum _ hb hle => exact Or.inl (Or.inl (Or.inr ⟨_, hb, hle, rfl⟩))
    | aboveMaximum _ hb hlt => exact Or.inl (Or.inr ⟨_, hb, hlt, rfl⟩)
    | notBelowMaximum _ hb hle => exact Or.inr ⟨_, hb, hle, rfl⟩

theorem nodup_numberFindings : (rules.findings n).Nodup := by
  simp only [NumberRules.findings, List.nodup_append, List.mem_append, mem_findingIf_iff,
    mem_limitFindings_iff]
  refine ⟨⟨⟨⟨nodup_findingIf _ _, nodup_limitFindings _ _ _, ?_⟩, nodup_limitFindings _ _ _, ?_⟩,
    nodup_limitFindings _ _ _, ?_⟩, nodup_limitFindings _ _ _, ?_⟩
  · rintro _ ⟨-, rfl⟩ _ ⟨b, -, -, rfl⟩; rintro ⟨⟩
  · rintro _ (⟨-, rfl⟩ | ⟨b, -, -, rfl⟩) _ ⟨b', -, -, rfl⟩ <;> rintro ⟨⟩
  · rintro _ ((⟨-, rfl⟩ | ⟨b, -, -, rfl⟩) | ⟨b, -, -, rfl⟩) _ ⟨b', -, -, rfl⟩ <;> rintro ⟨⟩
  · rintro _ (((⟨-, rfl⟩ | ⟨b, -, -, rfl⟩) | ⟨b, -, -, rfl⟩) | ⟨b, -, -, rfl⟩) _ ⟨b', -, -, rfl⟩ <;>
      rintro ⟨⟩

end

/-! ## Lists -/

section
variable {rules : ListRules} {count : Nat} {fs : List Finding}

theorem mem_listFindings_iff (h : rules.findings count = .ok fs) {f : Finding} : f ∈ fs ↔
    (∃ b n, rules.minItems = some b ∧ bound? b = some n ∧ (Number.int count).lt n ∧ f = .tooFewItems b) ∨
    ∃ b n, rules.maxItems = some b ∧ bound? b = some n ∧ n.lt (Number.int count) ∧
      f = .tooManyItems b := by
  unfold ListRules.findings at h
  obtain ⟨few, hf, h⟩ := bind_eq_ok_iff.1 h
  obtain ⟨many, hm, h⟩ := bind_eq_ok_iff.1 h
  cases h
  rw [List.mem_append, mem_sizeFindings_iff hf, mem_sizeFindings_iff hm]

theorem nodup_listFindings (h : rules.findings count = .ok fs) : fs.Nodup := by
  unfold ListRules.findings at h
  obtain ⟨few, hf, h⟩ := bind_eq_ok_iff.1 h
  obtain ⟨many, hm, h⟩ := bind_eq_ok_iff.1 h
  cases h
  simp only [List.nodup_append, mem_sizeFindings_iff hf, mem_sizeFindings_iff hm]
  refine ⟨nodup_sizeFindings hf, nodup_sizeFindings hm, ?_⟩
  rintro _ ⟨b, n, -, -, -, rfl⟩ _ ⟨b', n', -, -, -, rfl⟩; rintro ⟨⟩

/-- A value is the same data as one of those seen or as an element before a position. -/
def OccursBefore (seen items : List Value) (i : Nat) (x : Value) : Prop :=
  x.canonical ∈ seen ∨ ∃ j y, j < i ∧ items[j]? = some y ∧ x.canonical = y.canonical

theorem occursBefore_cons_iff {seen items : List Value} {x y : Value} {i : Nat} :
    OccursBefore seen (y :: items) (i + 1) x ↔ OccursBefore (y.canonical :: seen) items i x := by
  unfold OccursBefore
  rw [List.mem_cons]
  constructor
  · rintro (h | ⟨_ | j, z, hlt, hz, hc⟩)
    · exact Or.inl (Or.inr h)
    · cases hz; exact Or.inl (Or.inl hc)
    · exact Or.inr ⟨j, z, Nat.lt_of_succ_lt_succ hlt, hz, hc⟩
  · rintro ((hc | h) | ⟨j, z, hlt, hz, hc⟩)
    · exact Or.inr ⟨0, y, Nat.succ_pos i, rfl, hc⟩
    · exact Or.inl h
    · exact Or.inr ⟨j + 1, z, Nat.succ_lt_succ hlt, hz, hc⟩

theorem mem_repeatsFrom_iff {seen items : List Value} {k i : Nat} : i ∈ repeatsFrom seen k items ↔
    ∃ j x, i = k + j ∧ items[j]? = some x ∧ OccursBefore seen items j x := by
  induction items generalizing seen k with
  | nil => simp [repeatsFrom]
  | cons y items ih =>
    have hstep : (∃ j x, i = k + j ∧ (y :: items)[j]? = some x ∧ OccursBefore seen (y :: items) j x) ↔
        (i = k ∧ y.canonical ∈ seen) ∨
          i ∈ repeatsFrom (y.canonical :: seen) (k + 1) items := by
      rw [ih]
      constructor
      · rintro ⟨_ | j, x, rfl, hx, hbefore⟩
        · cases hx
          obtain hseen | ⟨_, _, hlt, -⟩ := hbefore
          · exact Or.inl ⟨rfl, hseen⟩
          · exact absurd hlt (Nat.not_lt_zero _)
        · exact Or.inr ⟨j, x, by omega, hx, occursBefore_cons_iff.1 hbefore⟩
      · rintro (⟨rfl, hseen⟩ | ⟨j, x, rfl, hx, hbefore⟩)
        · exact ⟨0, y, rfl, rfl, Or.inl hseen⟩
        · exact ⟨j + 1, x, by omega, hx, occursBefore_cons_iff.2 hbefore⟩
    rw [hstep, repeatsFrom]
    split
    next h =>
      -- one more copy of a form that was seen makes no difference
      have hseen := List.contains_iff_mem.1 h
      have hsame : ∀ j x, OccursBefore (y.canonical :: seen) items j x ↔ OccursBefore seen items j x := by
        intro j x
        have hcons : x.canonical ∈ y.canonical :: seen ↔ x.canonical ∈ seen := by
          rw [List.mem_cons]
          exact or_iff_right_of_imp fun hx => hx ▸ hseen
        rw [OccursBefore, OccursBefore, hcons]
      rw [List.mem_cons, ih, ih]
      simp only [hsame, hseen, and_true]
    next h =>
      have hseen : y.canonical ∉ seen := fun hx => h (List.contains_iff_mem.2 hx)
      simp only [hseen, and_false, false_or]

theorem le_of_mem_repeatsFrom {seen items : List Value} {k i : Nat} (h : i ∈ repeatsFrom seen k items) :
    k ≤ i := by
  obtain ⟨j, -, rfl, -⟩ := mem_repeatsFrom_iff.1 h
  omega

theorem nodup_repeatsFrom {seen items : List Value} {k : Nat} : (repeatsFrom seen k items).Nodup := by
  induction items generalizing seen k with
  | nil => exact List.nodup_nil
  | cons x items ih =>
    rw [repeatsFrom]
    split
    next => exact List.nodup_cons.2 ⟨fun hk => absurd (le_of_mem_repeatsFrom hk) (by omega), ih⟩
    next => exact ih

theorem mem_repeats_iff {items : List Value} {j : Nat} :
    j ∈ repeats items ↔ ∃ i y z, i < j ∧ items[i]? = some y ∧ items[j]? = some z ∧ z.sameData y := by
  simp only [repeats, mem_repeatsFrom_iff, OccursBefore, List.not_mem_nil, false_or, Nat.zero_add,
    Value.sameData_iff]
  constructor
  · rintro ⟨_, z, rfl, hz, i, y, hlt, hy, hc⟩; exact ⟨i, y, z, hlt, hy, hz, hc⟩
  · rintro ⟨i, y, z, hlt, hy, hz, hc⟩; exact ⟨_, z, rfl, hz, i, y, hlt, hy, hc⟩

end

end Validator

end SchemaGuard
