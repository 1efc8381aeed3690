/-
  SchemaGuard — the numbers that a schema admits before and after flagging.

  * `AdmitsFlagged`: the rules of a node for numbers if its exclusive bounds are flags, as
    `AdmitsNumber` are those if they are numbers;
  * `Fields.AdmitsOverridden`: the inclusive bounds that stand beside a numeric exclusive one.
    Flagging puts the number of the exclusive bound in their place;
  * `Fields.TighterExclusive`: each of them follows from the exclusive bound beside it.

  Main result: `flagged_admits`. Wherever schemas stand, flagging loses the overridden bounds and
  nothing else, so that a schema without any but such as follow admits the same numbers.
-/
import Mathlib
import SchemaGuard.Proofs.Schema.Agreement
import SchemaGuard.Proofs.TypeDecl.Flagging

namespace SchemaGuard

/-! ## Readings of bounds -/

section
variable (fields : Fields)

/-- The rules of a node for numbers if exclusive bounds are flags: a flag that is true makes the
    inclusive bound strict. -/
structure AdmitsFlagged (n : Number) : Prop where
  minimum : ∀ m, fields.named? "minimum" = some (.number m) → m.AtMost n
  strictMinimum : fields.named? "exclusiveMinimum" = some (.bool true) →
    ∀ m, fields.named? "minimum" = some (.number m) → m.Below n
  maximum : ∀ m, fields.named? "maximum" = some (.number m) → n.AtMost m
  strictMaximum : fields.named? "exclusiveMaximum" = some (.bool true) →
    ∀ m, fields.named? "maximum" = some (.number m) → n.Below m

/-- The inclusive bounds beside a numeric exclusive one admit a number. -/
structure Fields.AdmitsOverridden (n : Number) : Prop where
  minimum : ∀ m k, fields.named? "minimum" = some (.number m) →
    fields.named? "exclusiveMinimum" = some (.number k) → m.AtMost n
  maximum : ∀ m k, fields.named? "maximum" = some (.number m) →
    fields.named? "exclusiveMaximum" = some (.number k) → n.AtMost m

/-- Where both bounds of a side are numbers, the exclusive one is at least as tight. -/
structure Fields.TighterExclusive : Prop where
  minimum : ∀ m k, fields.named? "minimum" = some (.number m) →
    fields.named? "exclusiveMinimum" = some (.number k) → m.AtMost k
  maximum : ∀ m k, fields.named? "maximum" = some (.number m) →
    fields.named? "exclusiveMaximum" = some (.number k) → k.AtMost m

/-- No exclusive bound is a flag that is true. -/
structure Fields.Unflagged : Prop where
  minimum : fields.named? "exclusiveMinimum" ≠ some (.bool true)
  maximum : fields.named? "exclusiveMaximum" ≠ some (.bool true)

end

namespace Number
variable {a b c : Number}

theorem Below.atMost (h : a.Below b) : a.AtMost b := by
  obtain ⟨x, y, hx, hy, hlt⟩ := h
  exact ⟨x, y, hx, hy, hlt.le⟩

theorem AtMost.trans (hab : a.AtMost b) (hbc : b.AtMost c) : a.AtMost c := by
  obtain ⟨x, y, hx, hy, hxy⟩ := hab
  obtain ⟨y', z, hy', hz, hyz⟩ := hbc
  obtain rfl : y = y' := Option.some.inj (hy.symm.trans hy')
  exact ⟨x, z, hx, hz, hxy.trans hyz⟩

theorem atMost_int_iff {j k : Int} : (int j).AtMost (.int k) ↔ j ≤ k := by
  simp [AtMost, value?_int]

theorem below_int_iff {j k : Int} : (int j).Below (.int k) ↔ j < k := by
  simp [Below, value?_int]

end Number

/-! ## One side -/

section
variable {inclusive exclusive : String} {fields fields' : Fields}

/-- What the bounds of one side demand before flagging is what they demand afterwards, together
    with what the inclusive bound demands if the exclusive one has taken its place. -/
theorem BoundFlagged.demands_iff (h : BoundFlagged inclusive exclusive fields fields') (loose strict : Number → Prop)
    (hflag : fields.named? exclusive ≠ some (.bool true)) (hstrict : ∀ m, strict m → loose m) :
    ((∀ m, fields.named? inclusive = some (.number m) → loose m) ∧
      ∀ m, fields.named? exclusive = some (.number m) → strict m) ↔
    ((∀ m, fields'.named? inclusive = some (.number m) → loose m) ∧
      (fields'.named? exclusive = some (.bool true) →
        ∀ m, fields'.named? inclusive = some (.number m) → strict m)) ∧
    ∀ m k, fields.named? inclusive = some (.number m) →
      fields.named? exclusive = some (.number k) → loose m := by
  by_cases hnumeric : ∃ k, fields.named? exclusive = some (.number k)
  · obtain ⟨k, hk⟩ := hnumeric
    obtain ⟨hexclusive, hinclusive⟩ := h.numeric k hk
    -- behind flagging `k` is the number of both bounds
    have hnumber : ∀ m, fields'.named? inclusive = some (.number m) → m = k := by
      intro m hm
      rw [hinclusive] at hm
      cases hm
      rfl
    constructor
    · rintro ⟨hloose, hdemand⟩
      refine ⟨⟨fun m hm => ?_, fun _ m hm => ?_⟩, fun m _ hm _ => hloose m hm⟩
      · rw [hnumber m hm]
        exact hstrict k (hdemand k hk)
      · rw [hnumber m hm]
        exact hdemand k hk
    · rintro ⟨⟨-, hdemand⟩, hover⟩
      refine ⟨fun m hm => hover m k hm hk, fun m hm => ?_⟩
      obtain rfl : k = m := by rw [hk] at hm; cases hm; rfl
      exact hdemand hexclusive k hinclusive
  · have hnone : ∀ k, fields.named? exclusive ≠ some (.number k) := fun k hk => hnumeric ⟨k, hk⟩
    obtain ⟨hexclusive, hinclusive⟩ := h.other hnone
    rw [hexclusive, hinclusive]
    constructor
    · rintro ⟨hloose, -⟩
      exact ⟨⟨hloose, fun htrue => absurd htrue hflag⟩, fun m _ hm _ => hloose m hm⟩
    · rintro ⟨⟨hloose, -⟩, -⟩
      exact ⟨hloose, fun m hm => absurd hm (hnone m)⟩

end

/-! ## Both sides -/

section
variable {fields fields' : Fields} {n : Number}

/-- Of what a node admits, flagging loses what the overridden bounds demand. -/
theorem KeywordsFlagged.admitsNumber_iff (h : KeywordsFlagged fields fields') (hflags : fields.Unflagged) :
    AdmitsNumber fields n ↔ AdmitsFlagged fields' n ∧ fields.AdmitsOverridden n := by
  have hlower := h.minimum.demands_iff (Number.AtMost · n) (Number.Below · n) hflags.minimum fun _ hm => hm.atMost
  have hupper := h.maximum.demands_iff n.AtMost n.Below hflags.maximum fun _ hm => hm.atMost
  constructor
  · rintro ⟨hmin, hexmin, hmax, hexmax⟩
    obtain ⟨⟨hmin', hstrictMin⟩, hoverMin⟩ := hlower.1 ⟨hmin, hexmin⟩
    obtain ⟨⟨hmax', hstrictMax⟩, hoverMax⟩ := hupper.1 ⟨hmax, hexmax⟩
    exact ⟨⟨hmin', hstrictMin, hmax', hstrictMax⟩, ⟨hoverMin, hoverMax⟩⟩
  · rintro ⟨⟨hmin', hstrictMin, hmax', hstrictMax⟩, ⟨hoverMin, hoverMax⟩⟩
    obtain ⟨hmin, hexmin⟩ := hlower.2 ⟨⟨hmin', hstrictMin⟩, hoverMin⟩
    obtain ⟨hmax, hexmax⟩ := hupper.2 ⟨⟨hmax', hstrictMax⟩, hoverMax⟩
    exact ⟨hmin, hexmin, hmax, hexmax⟩

/-- Tighter exclusive bounds demand what the bounds demand that they override. -/
theorem KeywordsFlagged.admitsOverridden (h : KeywordsFlagged fields fields') (htight : fields.TighterExclusive)
    (hn : AdmitsFlagged fields' n) : fields.AdmitsOverridden n where
  minimum m k hm hk := by
    obtain ⟨-, hnumber⟩ := h.minimum.numeric k hk
    exact (htight.minimum m k hm hk).trans (hn.minimum k hnumber)
  maximum m k hm hk := by
    obtain ⟨-, hnumber⟩ := h.maximum.numeric k hk
    exact (hn.maximum k hnumber).trans (htight.maximum m k hm hk)

/-- The numeric reading is that of the compiled rules for numbers. -/
theorem accepts_compileNumber_iff (hf : Value.NaNFree (.object fields)) (p : String) (integer : Bool)
    (hn : Value.IsInstance (.number n)) :
    (∃ o, (compileNumber fields p integer).Accepts (.number n) o) ↔
      Value.HasType (.number n) (if integer then "integer" else "number") ∧ AdmitsNumber fields n := by
  have hdecides := (decides_number (A := Admits) hf integer (p := p)).2 _ hn
  simpa only [admitsByType_number_iff] using hdecides

end

/-! ## Schemas in a value -/

/-- **Flagging keeps the numbers that a schema admits, but for overridden bounds.** Take any place
    at which the pass comes to a schema without flags, and what stands there afterwards. The
    schema, its exclusive bounds read as numbers, admits a number exactly if its flagged form, with
    flags, admits it and the inclusive bounds beside numeric exclusive ones do. If the exclusive
    bounds are the tighter ones, both admit the same numbers. The first reading is the one of the
    compiled rules for numbers. -/
theorem flagged_admits {n : Value} {path : Path} {fields : Fields} (h : n.SchemaAt path (.object fields))
    (hflags : fields.Unflagged) : ∃ fields', n.flagged.SchemaAt path (.object fields') ∧
      (∀ x, AdmitsNumber fields x ↔ AdmitsFlagged fields' x ∧ fields.AdmitsOverridden x) ∧
      (fields.TighterExclusive → ∀ x, AdmitsNumber fields x ↔ AdmitsFlagged fields' x) ∧
      (Value.NaNFree (.object fields) → ∀ p integer x, Value.IsInstance (.number x) →
        ((∃ o, (compileNumber fields p integer).Accepts (.number x) o) ↔
          Value.HasType (.number x) (if integer then "integer" else "number") ∧ AdmitsNumber fields x)) := by
  have hkeywords := keywordsFlagged fields
  have hplace := h.flagged
  rw [Value.flagged] at hplace
  refine ⟨_, hplace, fun x => hkeywords.admitsNumber_iff hflags, fun htight x => ?_,
    fun hf p integer x hx => accepts_compileNumber_iff hf p integer hx⟩
  rw [hkeywords.admitsNumber_iff hflags]
  exact and_iff_left_of_imp (hkeywords.admitsOverridden htight)

/-- A ratio. Of the bounds on either side the exclusive one is the tighter one. -/
def ratio : Fields :=
  [(.text "minimum", .int 0), (.text "exclusiveMinimum", .int 0), (.text "exclusiveMaximum", .int 8),
    (.text "maximum", .int 9)]

/-- A rating, whose inclusive bound is the tighter one. -/
def rating : Fields := [(.text "minimum", .int 5), (.text "exclusiveMinimum", .int 3)]

/-- A ratio and a list of ratings. -/
def ratings : Value :=
  .object [(.text "properties", .object [(.text "ratio", .object ratio),
    (.text "ratings", .object [(.text "items", .object rating)])])]

theorem flagged_admits_ratings :
    (∃ fields', ratings.flagged.SchemaAt [.key "properties", .key "ratio"] (.object fields') ∧
      ∀ x, AdmitsNumber ratio x ↔ AdmitsFlagged fields' x) ∧
    ∃ fields', ratings.flagged.SchemaAt [.key "properties", .key "ratings", .key "items"] (.object fields') ∧
      AdmitsFlagged fields' (.int 4) ∧ ¬ AdmitsNumber rating (.int 4) := by
  have hratio : ratings.SchemaAt [.key "properties", .key "ratio"] (.object ratio) :=
    .inside (.member (by decide) rfl rfl) (.root _)
  have hrating : ratings.SchemaAt [.key "properties", .key "ratings", .key "items"] (.object rating) :=
    .inside (.member (by decide) rfl rfl) (.inside (.schemas (by decide) rfl) (.root _))
  have htight : ratio.TighterExclusive := by
    constructor
    · intro m k hm hk
      cases hm
      cases hk
      exact Number.atMost_int_iff.2 (by decide)
    · intro m k hm hk
      cases hm
      cases hk
      exact Number.atMost_int_iff.2 (by decide)
  obtain ⟨fields', hplace, -, hsame, -⟩ := flagged_admits hratio ⟨by decide, by decide⟩
  refine ⟨⟨fields', hplace, hsame htight⟩, ?_⟩
  obtain ⟨fields', hplace, hadmits, -⟩ := flagged_admits hrating ⟨by decide, by decide⟩
  have hfields : fields' = [(.text "minimum", .int 3), (.text "exclusiveMinimum", .bool true)] := by
    have hpart := hplace.part?
    cases hpart
    rfl
  refine ⟨fields', hplace, ?_, fun h => ?_⟩
  · subst hfields
    refine ⟨fun m hm => ?_, fun _ m hm => ?_, nofun, nofun⟩
    · cases hm
      exact Number.atMost_int_iff.2 (by decide)
    · cases hm
      exact Number.below_int_iff.2 (by decide)
  · have hover := ((hadmits (.int 4)).1 h).2.minimum (.int 5) (.int 3) rfl rfl
    exact absurd (Number.atMost_int_iff.1 hover) (by decide)

end SchemaGuard
