/-
  SchemaGuard — what flagging the bounds of a schema changes.

  * `Value.SchemaAt n path x`: the pass that flags bounds comes to `x`, at `path` in `n`;
  * `Reflagged x x'`: what becomes of a part that it comes to. Of an object, the bounds change,
    and nothing else about its own keywords (`KeywordsFlagged`);
  * `Value.Accounted n path v`: the part `v` at `path` is one that the pass comes to, an object
    of names or a bound of such a part, or unchanged.

  Main result: `flagged_rewrites`, that the pass comes to the same places in a schema and in
  what becomes of it, that everything is accounted for, and that flagging twice is flagging once.
-/
import SchemaGuard.Proofs.Value.Join
import SchemaGuard.Proofs.Value.Location
import SchemaGuard.TypeDecl.FlaggedBounds

namespace SchemaGuard

/-! ## Places -/

namespace Value

/-- A value holds another one at a place where schemas stand, which the steps lead to. -/
inductive Holds : Value → Path → Value → Prop where
  | item {items : List Value} {i : Nat} {v : Value} (hv : items[i]? = some v) : Holds (.list items) [.index i] v
  | member {fields members : Fields} {keyword name : String} {v : Value} (hkeyword : keyword ∈ namedSchemasKeywords)
      (hmembers : fields.named? keyword = some (.object members)) (hv : members.named? name = some v) :
      Holds (.object fields) [.key keyword, .key name] v
  | schemas {fields : Fields} {keyword : String} {v : Value} (hkeyword : keyword ∈ schemasKeywords)
      (hv : fields.named? keyword = some v) : Holds (.object fields) [.key keyword] v
  | schemaObject {fields inner : Fields} {keyword : String} (hkeyword : keyword ∈ schemaObjectKeywords)
      (hv : fields.named? keyword = some (.object inner)) : Holds (.object fields) [.key keyword] (.object inner)

/-- A value is itself at the empty path, and everything is in it that is in what it holds. -/
inductive SchemaAt : Value → Path → Value → Prop where
  | root (v : Value) : SchemaAt v [] v
  | inside {v w x : Value} {steps path : Path} (hw : Holds v steps w) (h : SchemaAt w path x) :
      SchemaAt v (steps ++ path) x

theorem Holds.part? {v w : Value} {steps : Path} (h : Holds v steps w) : v.part? steps = some w := by
  cases h with
  | item hv => simp [part?_cons, enter?, hv]
  | member _ hmembers hv => simp [part?_cons, enter?, hmembers, hv]
  | schemas _ hv | schemaObject _ hv => simp [part?_cons, enter?, hv]

/-- There is one value at a place. -/
theorem SchemaAt.part? {v x : Value} {path : Path} (h : SchemaAt v path x) : v.part? path = some x := by
  induction h with
  | root => rfl
  | inside hw _ ih => rw [part?_append, hw.part?, Option.bind_some, ih]

end Value

/-! ## One schema -/

/-- The keywords of bounds. -/
def boundKeywords : List String := ["maximum", "exclusiveMaximum", "minimum", "exclusiveMinimum"]

/-- A numeric exclusive bound becomes a flag, and its number the inclusive bound. Another one stays,
    and the inclusive bound with it. -/
structure BoundFlagged (inclusive exclusive : String) (fields fields' : Fields) : Prop where
  numeric : ∀ n, fields.named? exclusive = some (.number n) →
    fields'.named? exclusive = some (.bool true) ∧ fields'.named? inclusive = some (.number n)
  other : (∀ n, fields.named? exclusive ≠ some (.number n)) →
    fields'.named? exclusive = fields.named? exclusive ∧ fields'.named? inclusive = fields.named? inclusive
  notNumber : ∀ n, fields'.named? exclusive ≠ some (.number n)

/-- What becomes of the keywords of a schema. What stands under the others is not said here. -/
structure KeywordsFlagged (fields fields' : Fields) : Prop where
  maximum : BoundFlagged "maximum" "exclusiveMaximum" fields fields'
  minimum : BoundFlagged "minimum" "exclusiveMinimum" fields fields'
  keys : ∃ added, added ⊆ [Scalar.text "maximum", .text "minimum"] ∧ fields'.keys = fields.keys ++ added
  names : ∀ keyword ∈ namedSchemasKeywords, ∀ members : Fields, fields.named? keyword = some (.object members) →
    ∃ members' : Fields, fields'.named? keyword = some (.object members') ∧ members'.keys = members.keys

/-- What becomes of a part that the pass comes to, without what is inside of it. -/
inductive Reflagged : Value → Value → Prop where
  | object {fields fields' : Fields} (h : KeywordsFlagged fields fields') : Reflagged (.object fields) (.object fields')
  | list {items items' : List Value} (h : items'.length = items.length) : Reflagged (.list items) (.list items')
  | scalar (s : Scalar) : Reflagged (.scalar s) (.scalar s)
  | tuple (items : List Value) : Reflagged (.tuple items) (.tuple items)

namespace Fields
variable {fields : Fields} {inclusive exclusive keyword : String}

theorem named?_flagBound_of_ne (hinclusive : inclusive ≠ keyword) (hexclusive : exclusive ≠ keyword) :
    (fields.flagBound inclusive exclusive).named? keyword = fields.named? keyword := by
  unfold flagBound
  split
  · rw [named?_set, if_neg hexclusive, named?_set, if_neg hinclusive]
  · rfl

theorem named?_flagBound_numeric (hne : exclusive ≠ inclusive) {n : Number} (h : fields.named? exclusive = some (.number n)) :
    (fields.flagBound inclusive exclusive).named? exclusive = some (.bool true) ∧
      (fields.flagBound inclusive exclusive).named? inclusive = some (.number n) := by
  unfold flagBound
  rw [h]
  simp only [named?_set, if_true, if_neg hne, and_self]

/-- Setting a field adds at most its key, behind the others. -/
theorem exists_keys_set (fields : Fields) (name : String) (v : Value) :
    ∃ added, added ⊆ [Scalar.text name] ∧ (fields.set name v).keys = fields.keys ++ added := by
  unfold set
  induction fields with
  | nil => exact ⟨[.text name], List.Subset.refl _, rfl⟩
  | cons f fields ih =>
    obtain ⟨k, x⟩ := f
    obtain ⟨added, hadded, hkeys⟩ := ih
    by_cases hk : k = .text name
    · exact ⟨[], List.nil_subset _, by simp [put, hk, keys]⟩
    · exact ⟨added, hadded, by simpa [put, hk, keys] using hkeys⟩

theorem keys_flagBound (fields : Fields) (inclusive exclusive : String) (hne : inclusive ≠ exclusive) :
    ∃ added, added ⊆ [Scalar.text inclusive] ∧ (fields.flagBound inclusive exclusive).keys = fields.keys ++ added := by
  unfold flagBound
  split
  next n hn =>
    rw [keys_set (by rw [named?_set, if_neg hne]; exact hn)]
    exact exists_keys_set fields inclusive _
  next => exact ⟨[], List.nil_subset _, (List.append_nil _).symm⟩

theorem boundFlagged_flagBound (fields : Fields) (hne : exclusive ≠ inclusive) :
    BoundFlagged inclusive exclusive fields (fields.flagBound inclusive exclusive) where
  numeric _ h := named?_flagBound_numeric hne h
  other h := by rw [flagBound_of_not_number h]; exact ⟨rfl, rfl⟩
  notNumber := named?_flagBound_ne_number fields inclusive exclusive

end Fields

/-- Fields with the same bounds are flagged alike. -/
theorem BoundFlagged.congr {inclusive exclusive : String} {fields fields' gs gs' : Fields}
    (h : BoundFlagged inclusive exclusive fields fields') (hexclusive : gs.named? exclusive = fields.named? exclusive)
    (hinclusive : gs.named? inclusive = fields.named? inclusive) (hexclusive' : gs'.named? exclusive = fields'.named? exclusive)
    (hinclusive' : gs'.named? inclusive = fields'.named? inclusive) : BoundFlagged inclusive exclusive gs gs' where
  numeric := by rw [hexclusive, hexclusive', hinclusive']; exact h.numeric
  other := by rw [hexclusive, hexclusive', hinclusive, hinclusive']; exact h.other
  notNumber := by rw [hexclusive']; exact h.notNumber

/-! ## Keywords -/

theorem contentOf_named {keyword : String} (h : keyword ∈ namedSchemasKeywords) : contentOf (.text keyword) = .namedSchemas := by
  rw [contentOf, if_pos h]

theorem contentOf_schemas {keyword : String} (h : keyword ∈ schemasKeywords) : contentOf (.text keyword) = .schemas := by
  have hnamed : ∀ k ∈ schemasKeywords, k ∉ namedSchemasKeywords := by decide
  rw [contentOf, if_neg (hnamed keyword h), if_pos h]

theorem contentOf_schemaObject {keyword : String} (h : keyword ∈ schemaObjectKeywords) :
    contentOf (.text keyword) = .schemaObject := by
  have hnamed : ∀ k ∈ schemaObjectKeywords, k ∉ namedSchemasKeywords ∧ k ∉ schemasKeywords := by decide
  rw [contentOf, if_neg (hnamed keyword h).1, if_neg (hnamed keyword h).2, if_pos h]

/-- No schemas stand under a bound. -/
theorem contentOf_bound {keyword : String} (h : keyword ∈ boundKeywords) : contentOf (.text keyword) = .data := by
  have hdata : ∀ k ∈ boundKeywords, contentOf (.text k) = .data := by decide
  exact hdata keyword h

/-- What a keyword holds decides which list it is in. -/
theorem contentOf_cases (keyword : String) :
    (contentOf (.text keyword) = .namedSchemas ∧ keyword ∈ namedSchemasKeywords) ∨
      (contentOf (.text keyword) = .schemas ∧ keyword ∈ schemasKeywords) ∨
      (contentOf (.text keyword) = .schemaObject ∧ keyword ∈ schemaObjectKeywords) ∨
      contentOf (.text keyword) = .data := by
  by_cases hnamed : keyword ∈ namedSchemasKeywords
  · exact Or.inl ⟨contentOf_named hnamed, hnamed⟩
  by_cases hschemas : keyword ∈ schemasKeywords
  · exact Or.inr (Or.inl ⟨contentOf_schemas hschemas, hschemas⟩)
  by_cases hobject : keyword ∈ schemaObjectKeywords
  · exact Or.inr (Or.inr (Or.inl ⟨contentOf_schemaObject hobject, hobject⟩))
  · rw [contentOf, if_neg hnamed, if_neg hschemas, if_neg hobject]
    exact Or.inr (Or.inr (Or.inr rfl))

namespace Value

theorem flaggedPart_schemas (v : Value) : flaggedPart .schemas v = v.flagged := by
  cases v <;> rw [flaggedPart.eq_def, flagged.eq_def]

theorem flaggedPart_schemaObject (fields : Fields) : flaggedPart .schemaObject (.object fields) = (object fields).flagged := by
  rw [flaggedPart, flagged]

theorem flaggedPart_data (v : Value) : flaggedPart .data v = v := by
  cases v <;> rfl

theorem named?_map (f : Scalar → Value → Value) (fields : Fields) (name : String) :
    Fields.named? (fields.map fun p => (p.1, f p.1 p.2)) name = (fields.named? name).map (f (.text name)) := by
  induction fields with
  | nil => rfl
  | cons p fields ih =>
    obtain ⟨k, v⟩ := p
    rw [List.map_cons, Fields.named?_cons, Fields.named?_cons, ih]
    by_cases hk : k = .text name
    · rw [if_pos hk, if_pos hk, hk]; rfl
    · rw [if_neg hk, if_neg hk]

theorem named?_flaggedFields (fields : Fields) (keyword : String) :
    Fields.named? (flaggedFields fields) keyword = (fields.named? keyword).map (flaggedPart (contentOf (.text keyword))) := by
  rw [flaggedFields_eq_map, named?_map fun key => flaggedPart (contentOf key)]

theorem named?_flaggedMembers (members : Fields) (name : String) :
    Fields.named? (flaggedMembers members) name = (members.named? name).map flagged := by
  rw [flaggedMembers_eq_map, named?_map fun _ => flagged]

theorem keys_flaggedFields (fields : Fields) : Fields.keys (flaggedFields fields) = fields.keys := by
  rw [flaggedFields_eq_map, Fields.keys, List.map_map]; rfl

theorem keys_flaggedMembers (members : Fields) : Fields.keys (flaggedMembers members) = members.keys := by
  rw [flaggedMembers_eq_map, Fields.keys, List.map_map]; rfl

/-- The keywords of a flagged schema: its own for bounds, what they hold flagged otherwise. -/
theorem named?_flagBounds_flaggedFields {fields : Fields} {keyword : String} (h : keyword ∉ boundKeywords) :
    (Fields.flagBounds (flaggedFields fields)).named? keyword =
      (fields.named? keyword).map (flaggedPart (contentOf (.text keyword))) := by
  simp only [boundKeywords, List.mem_cons, List.not_mem_nil, or_false, not_or] at h
  rw [Fields.flagBounds, Fields.named?_flagBound_of_ne (Ne.symm h.2.2.1) (Ne.symm h.2.2.2),
    Fields.named?_flagBound_of_ne (Ne.symm h.1) (Ne.symm h.2.1), named?_flaggedFields]

theorem named?_flaggedFields_bound {fields : Fields} {keyword : String} (h : keyword ∈ boundKeywords) :
    Fields.named? (flaggedFields fields) keyword = fields.named? keyword := by
  rw [named?_flaggedFields, contentOf_bound h]
  cases fields.named? keyword with
  | none => rfl
  | some v => rw [Option.map_some, flaggedPart_data]

/-! ## Places in what becomes of a schema -/

section
variable {v w w' x x' : Value} {steps path : Path}

theorem not_mem_boundKeywords {keyword : String}
    (h : keyword ∈ namedSchemasKeywords ∨ keyword ∈ schemasKeywords ∨ keyword ∈ schemaObjectKeywords) :
    keyword ∉ boundKeywords := by
  have hne : ∀ k ∈ namedSchemasKeywords ++ (schemasKeywords ++ schemaObjectKeywords), k ∉ boundKeywords := by decide
  exact hne keyword (by simpa using h)

/-- What a schema holds is in its place, flagged, in what becomes of the schema. -/
theorem Holds.flagged (h : Holds v steps w) : Holds v.flagged steps w.flagged := by
  cases h with
  | item hv =>
    rw [Value.flagged, flaggedItems_eq_map]
    exact .item (by rw [List.getElem?_map, hv, Option.map_some])
  | @member fields members keyword name _ hkeyword hmembers hv =>
    have hflagged : (Fields.flagBounds (flaggedFields fields)).named? keyword =
        some (object (flaggedMembers members)) := by
      rw [named?_flagBounds_flaggedFields (not_mem_boundKeywords (Or.inl hkeyword)), hmembers, contentOf_named hkeyword]
      rfl
    rw [Value.flagged]
    exact .member hkeyword hflagged (by rw [named?_flaggedMembers, hv, Option.map_some])
  | schemas hkeyword hv =>
    rw [Value.flagged.eq_2]
    refine .schemas hkeyword ?_
    rw [named?_flagBounds_flaggedFields (not_mem_boundKeywords (Or.inr (Or.inl hkeyword))), hv,
      contentOf_schemas hkeyword, Option.map_some, flaggedPart_schemas]
  | schemaObject hkeyword hv =>
    rw [Value.flagged, Value.flagged]
    refine .schemaObject hkeyword ?_
    rw [named?_flagBounds_flaggedFields (not_mem_boundKeywords (Or.inr (Or.inr hkeyword))), hv,
      contentOf_schemaObject hkeyword, Option.map_some, flaggedPart]

/-- What becomes of a schema holds nothing else. -/
theorem Holds.of_flagged (h : Holds v.flagged steps w') : ∃ w, Holds v steps w ∧ w' = w.flagged := by
  cases v with
  | scalar s => cases h
  | tuple items => cases h
  | list items =>
    rw [Value.flagged, flaggedItems_eq_map] at h
    cases h with
    | item hv =>
      rw [List.getElem?_map, Option.map_eq_some_iff] at hv
      obtain ⟨w, hw, rfl⟩ := hv
      exact ⟨w, .item hw, rfl⟩
  | object fields =>
    rw [Value.flagged] at h
    cases h with
    | member hkeyword hmembers hv =>
      rw [named?_flagBounds_flaggedFields (not_mem_boundKeywords (Or.inl hkeyword)), contentOf_named hkeyword,
        Option.map_eq_some_iff] at hmembers
      obtain ⟨old, hold, heq⟩ := hmembers
      cases old <;> cases heq
      rw [named?_flaggedMembers, Option.map_eq_some_iff] at hv
      obtain ⟨w, hw, rfl⟩ := hv
      exact ⟨w, .member hkeyword hold hw, rfl⟩
    | schemas hkeyword hv =>
      rw [named?_flagBounds_flaggedFields (not_mem_boundKeywords (Or.inr (Or.inl hkeyword))), contentOf_schemas hkeyword,
        Option.map_eq_some_iff] at hv
      obtain ⟨w, hw, rfl⟩ := hv
      exact ⟨w, .schemas hkeyword hw, flaggedPart_schemas w⟩
    | schemaObject hkeyword hv =>
      rw [named?_flagBounds_flaggedFields (not_mem_boundKeywords (Or.inr (Or.inr hkeyword))),
        contentOf_schemaObject hkeyword, Option.map_eq_some_iff] at hv
      obtain ⟨w, hw, heq⟩ := hv
      cases w with
      | object inner => exact ⟨_, .schemaObject hkeyword hw, heq.symm.trans (flaggedPart_schemaObject inner)⟩
      | _ => cases heq

theorem SchemaAt.flagged (h : SchemaAt v path x) : SchemaAt v.flagged path x.flagged := by
  induction h with
  | root => exact .root _
  | inside hw _ ih => exact .inside hw.flagged ih

theorem SchemaAt.of_flagged (h : SchemaAt v.flagged path x') : ∃ x, SchemaAt v path x ∧ x' = x.flagged := by
  generalize hv : v.flagged = v' at h
  induction h generalizing v with
  | root => exact ⟨v, .root v, hv.symm⟩
  | inside hw _ ih =>
    subst hv
    obtain ⟨w, hheld, rfl⟩ := hw.of_flagged
    obtain ⟨x, hx, rfl⟩ := ih rfl
    exact ⟨x, .inside hheld hx, rfl⟩

end

end Value

theorem BoundFlagged.flaggedFields {inclusive exclusive : String} {fields fields' : Fields}
    (h : BoundFlagged inclusive exclusive (Value.flaggedFields fields) fields') (hinclusive : inclusive ∈ boundKeywords)
    (hexclusive : exclusive ∈ boundKeywords) : BoundFlagged inclusive exclusive fields fields' :=
  h.congr (Value.named?_flaggedFields_bound hexclusive).symm (Value.named?_flaggedFields_bound hinclusive).symm rfl rfl

theorem keywordsFlagged (fields : Fields) : KeywordsFlagged fields (Fields.flagBounds (Value.flaggedFields fields)) where
  maximum := by
    have h : BoundFlagged "maximum" "exclusiveMaximum" _ _ :=
      (Fields.boundFlagged_flagBound (Value.flaggedFields fields) (by decide)).flaggedFields
        (by decide) (by decide)
    exact h.congr rfl rfl (Fields.named?_flagBound_of_ne (by decide) (by decide))
      (Fields.named?_flagBound_of_ne (by decide) (by decide))
  minimum := by
    have h : BoundFlagged "minimum" "exclusiveMinimum" _ (Fields.flagBounds (Value.flaggedFields fields)) :=
      Fields.boundFlagged_flagBound _ (by decide)
    refine BoundFlagged.flaggedFields (h.congr ?_ ?_ rfl rfl) (by decide) (by decide)
    · exact (Fields.named?_flagBound_of_ne (by decide) (by decide)).symm
    · exact (Fields.named?_flagBound_of_ne (by decide) (by decide)).symm
  keys := by
    obtain ⟨upper, hupper, hkeys⟩ :=
      Fields.keys_flagBound (Value.flaggedFields fields) "maximum" "exclusiveMaximum" (by decide)
    obtain ⟨lower, hlower, hkeys'⟩ :=
      Fields.keys_flagBound (Fields.flagBound (Value.flaggedFields fields) "maximum" "exclusiveMaximum")
        "minimum" "exclusiveMinimum" (by decide)
    refine ⟨upper ++ lower, ?_, ?_⟩
    · exact List.append_subset.2 ⟨List.Subset.trans hupper (by simp), List.Subset.trans hlower (by simp)⟩
    · rw [Fields.flagBounds, hkeys', hkeys, Value.keys_flaggedFields, List.append_assoc]
  names keyword hkeyword members hmembers := by
    refine ⟨Value.flaggedMembers members, ?_, Value.keys_flaggedMembers members⟩
    rw [Value.named?_flagBounds_flaggedFields (Value.not_mem_boundKeywords (Or.inl hkeyword)), hmembers,
      contentOf_named hkeyword]
    rfl

theorem reflagged (v : Value) : Reflagged v v.flagged := by
  cases v with
  | scalar s => exact .scalar s
  | tuple items => exact .tuple items
  | list items =>
    rw [Value.flagged, Value.flaggedItems_eq_map]
    exact .list (List.length_map _)
  | object fields =>
    rw [Value.flagged]
    exact .object (keywordsFlagged fields)

/-! ## Everything else -/

namespace Value

/-- A part is one that the pass comes to, or one of the objects with names or the bounds in such a
    part, or it is unchanged. -/
inductive Accounted (n : Value) : Path → Value → Prop where
  | schema {path : Path} {v : Value} (h : SchemaAt n path v) : Accounted n path v
  | names {place : Path} {fields members : Fields} {keyword : String} (h : SchemaAt n place (.object fields))
      (hkeyword : keyword ∈ namedSchemasKeywords) (hmembers : fields.named? keyword = some (.object members)) :
      Accounted n (place ++ [.key keyword]) (.object members)
  | bound {place rest : Path} {fields : Fields} {keyword : String} {v : Value} (h : SchemaAt n place (.object fields))
      (hkeyword : keyword ∈ boundKeywords) : Accounted n (place ++ .key keyword :: rest) v
  | unchanged {path : Path} {v : Value} (h : n.flagged.part? path = some v) : Accounted n path v

theorem Accounted.inside {n w v : Value} {steps path : Path} (hw : Holds n steps w) (h : Accounted w path v) :
    Accounted n (steps ++ path) v := by
  cases h with
  | schema h => exact .schema (.inside hw h)
  | names h hkeyword hmembers => rw [← List.append_assoc]; exact .names (.inside hw h) hkeyword hmembers
  | bound h hkeyword => rw [← List.append_assoc]; exact .bound (.inside hw h) hkeyword
  | unchanged h => exact .unchanged (by rw [part?_append, hw.flagged.part?, Option.bind_some, h])

/-- Under a keyword that holds no schemas for this value, everything is unchanged. -/
theorem accounted_of_flaggedPart {fields : Fields} {keyword : String} {w v : Value} {path : Path}
    (hbound : keyword ∉ boundKeywords) (hw : fields.named? keyword = some w) (h : w.part? path = some v)
    (hpart : flaggedPart (contentOf (.text keyword)) w = w) : Accounted (.object fields) (.key keyword :: path) v := by
  refine .unchanged ?_
  rw [flagged, part?_cons, enter?, named?_flagBounds_flaggedFields hbound, hw, Option.map_some, hpart, Option.bind_some, h]

/-- Every part of a value is accounted for. -/
theorem accounted (n : Value) (path : Path) (v : Value) (h : n.part? path = some v) : Accounted n path v := by
  induction hlength : path.length using Nat.strong_induction_on generalizing n path with
  | _ length ih =>
    subst hlength
    cases path with
    | nil => cases h; exact .schema (.root _)
    | cons step rest =>
      rw [part?_cons, Option.bind_eq_some_iff] at h
      obtain ⟨w, hw, hv⟩ := h
      have hrest : Accounted w rest v := ih rest.length (by simp) w rest hv rfl
      cases n with
      | scalar s => cases hw
      | tuple items =>
        have hsame : (tuple items).flagged = tuple items := rfl
        exact .unchanged (by rw [hsame, part?_cons, hw, Option.bind_some, hv])
      | list items =>
        cases step with
        | key name => cases hw
        | index i => exact .inside (.item hw) hrest
      | object fields =>
        cases step with
        | index i => cases hw
        | key keyword =>
          by_cases hbound : keyword ∈ boundKeywords
          · exact Accounted.bound (.root (object fields)) hbound
          replace hw : Fields.named? fields keyword = some w := hw
          rcases contentOf_cases keyword with ⟨hcontent, hkeyword⟩ | ⟨hcontent, hkeyword⟩ | ⟨hcontent, hkeyword⟩ | hcontent
          · cases w with
            | object members =>
              cases rest with
              | nil => cases hv; exact Accounted.names (.root (object fields)) hkeyword hw
              | cons next rest =>
                -- the names under the keyword are no places of their own, so the walk goes on two steps further
                rw [part?_cons, Option.bind_eq_some_iff] at hv
                obtain ⟨u, hu, hv⟩ := hv
                cases next with
                | index i => cases hu
                | key name => exact .inside (.member hkeyword hw hu) (ih rest.length (by simp) u rest hv rfl)
            | _ => exact accounted_of_flaggedPart hbound hw hv (by rw [hcontent]; rfl)
          · exact .inside (.schemas hkeyword hw) hrest
          · cases w with
            | object inner => exact .inside (.schemaObject hkeyword hw) hrest
            | _ => exact accounted_of_flaggedPart hbound hw hv (by rw [hcontent]; rfl)
          · exact accounted_of_flaggedPart hbound hw hv (by rw [hcontent, flaggedPart_data])

end Value

/-! ## Flagging twice -/

namespace Fields

theorem map_set (f : Scalar → Value → Value) (fields : Fields) (name : String) (v : Value) :
    (fields.set name v).map (fun p => (p.1, f p.1 p.2)) =
      Fields.set (fields.map fun p => (p.1, f p.1 p.2)) name (f (.text name) v) := by
  unfold set
  induction fields with
  | nil => rfl
  | cons p fields ih =>
    obtain ⟨k, x⟩ := p
    by_cases hk : k = .text name
    · subst hk
      simp only [put, List.map_cons, if_true]
    · simp only [put, List.map_cons, if_neg hk, ih]

theorem flaggedFields_flagBound {inclusive exclusive : String} (hinclusive : inclusive ∈ boundKeywords)
    (hexclusive : exclusive ∈ boundKeywords) (fields : Fields) :
    Value.flaggedFields (fields.flagBound inclusive exclusive) =
      Fields.flagBound (Value.flaggedFields fields) inclusive exclusive := by
  unfold flagBound
  rw [Value.named?_flaggedFields_bound hexclusive]
  split
  · simp only [Value.flaggedFields_eq_map]
    rw [map_set fun key => Value.flaggedPart (contentOf key), map_set fun key => Value.flaggedPart (contentOf key),
      contentOf_bound hinclusive, contentOf_bound hexclusive, Value.flaggedPart_data, Value.flaggedPart_data]
  · rfl

theorem flaggedFields_flagBounds (fields : Fields) :
    Value.flaggedFields fields.flagBounds = Fields.flagBounds (Value.flaggedFields fields) := by
  rw [flagBounds, flaggedFields_flagBound (by decide) (by decide), flaggedFields_flagBound (by decide) (by decide)]; rfl

theorem flagBounds_flagBounds (fields : Fields) : fields.flagBounds.flagBounds = fields.flagBounds := by
  have hupper : ∀ n, fields.flagBounds.named? "exclusiveMaximum" ≠ some (.number n) := by
    rw [flagBounds, named?_flagBound_of_ne (by decide) (by decide)]
    exact named?_flagBound_ne_number fields _ _
  have hlower : ∀ n, fields.flagBounds.named? "exclusiveMinimum" ≠ some (.number n) := named?_flagBound_ne_number _ _ _
  rw [flagBounds, flagBound_of_not_number hupper, flagBound_of_not_number hlower]

end Fields

namespace Value

theorem flaggedItems_flaggedItems {items : List Value} (h : ∀ x ∈ items, x.flagged.flagged = x.flagged) :
    flaggedItems (flaggedItems items) = flaggedItems items := by
  rw [flaggedItems_eq_map, flaggedItems_eq_map, List.map_map]
  exact List.map_congr_left h

theorem flaggedMembers_flaggedMembers {members : Fields} (h : ∀ m ∈ members, m.2.flagged.flagged = m.2.flagged) :
    flaggedMembers (flaggedMembers members) = flaggedMembers members := by
  rw [flaggedMembers_eq_map, flaggedMembers_eq_map, List.map_map]
  exact List.map_congr_left fun m hm => Prod.ext rfl (h m hm)

theorem flaggedFields_flaggedFields {fields : Fields}
    (h : ∀ f ∈ fields, ∀ c, flaggedPart c (flaggedPart c f.2) = flaggedPart c f.2) :
    flaggedFields (flaggedFields fields) = flaggedFields fields := by
  rw [flaggedFields_eq_map, flaggedFields_eq_map, List.map_map]
  exact List.map_congr_left fun f hf => Prod.ext rfl (h f hf _)

/-- Flagging a second time changes nothing, whatever the value is taken to hold. Both are proved
    together: under a keyword, names stand between a schema and the schemas in it. -/
theorem flagged_twice (v : Value) :
    v.flagged.flagged = v.flagged ∧ ∀ c, flaggedPart c (flaggedPart c v) = flaggedPart c v := by
  induction v with
  | scalar s => exact ⟨rfl, fun c => by cases c <;> rfl⟩
  | tuple items => exact ⟨rfl, fun c => by cases c <;> rfl⟩
  | list items ih =>
    have hself : (list items).flagged.flagged = (list items).flagged := by
      rw [flagged, flagged, flaggedItems_flaggedItems fun x hx => (ih x hx).1]
    refine ⟨hself, fun c => ?_⟩
    cases c with
    | schemas => rw [flaggedPart_schemas, flaggedPart_schemas, hself]
    | _ => rfl
  | object fields ih =>
    have hself : (object fields).flagged.flagged = (object fields).flagged := by
      rw [flagged, flagged, Fields.flaggedFields_flagBounds, Fields.flagBounds_flagBounds,
        flaggedFields_flaggedFields fun f hf => (ih f hf).2]
    refine ⟨hself, fun c => ?_⟩
    cases c with
    | data => rfl
    | schemas => rw [flaggedPart_schemas, flaggedPart_schemas, hself]
    | schemaObject =>
      obtain ⟨inner, hinner⟩ : ∃ inner, (object fields).flagged = .object inner := ⟨_, by rw [flagged]⟩
      rw [flaggedPart_schemaObject, hinner, flaggedPart_schemaObject, ← hinner, hself]
    | namedSchemas =>
      rw [flaggedPart, flaggedPart, flaggedMembers_flaggedMembers fun f hf => (ih f hf).1]

end Value

/-- **Flagging rewrites every schema and nothing else.** The pass comes to the same places in a value
    and in what becomes of it; each part it comes to has its numeric bounds flagged and keeps its
    keys; everything elsewhere is unchanged; and a second pass changes nothing. -/
theorem flagged_rewrites (n : Value) :
    ((∀ path x, n.SchemaAt path x → ∃ x', n.flagged.SchemaAt path x' ∧ Reflagged x x') ∧
      ∀ path x', n.flagged.SchemaAt path x' → ∃ x, n.SchemaAt path x ∧ Reflagged x x') ∧
      (∀ path v, n.part? path = some v → n.Accounted path v) ∧
      n.flagged.flagged = n.flagged := by
  refine ⟨⟨fun path x h => ⟨_, h.flagged, reflagged x⟩, fun path x' h => ?_⟩, n.accounted, n.flagged_twice.1⟩
  obtain ⟨x, hx, rfl⟩ := h.of_flagged
  exact ⟨x, hx, reflagged x⟩

end SchemaGuard
