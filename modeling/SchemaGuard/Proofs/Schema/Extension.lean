/-
  SchemaGuard — schema documents with vendor keywords.

  A vendor keyword is a key that no meta-schema names (`Draft.commonNames`), in a document of
  draft 3 not that of draft 3 either (`Draft.knownNames`). Adding one is only meant where a schema
  stands: at the root of a document, and where `items`, `properties`, `anyOf`, `oneOf` and `allOf`
  lead from there.

  * `Role`: what stands at a place that these keywords lead to;
  * `Extended known role v w`: `w` is `v` with at most one keyword added that is not `known`,
    where schemas stand in what has this role;
  * `Extended.corresponds`: what both have in common, place by place.
-/
import Mathlib.Data.List.Forall2
import Mathlib.Data.Option.Basic
import SchemaGuard.Proofs.MetaSchema.Bounds

namespace SchemaGuard

/-! ## Vendor keywords -/

namespace Draft

/-- The names that the meta-schema of a dialect has for the properties of schemas, where it demands
    something of them. -/
def keywordNames (draft : Draft) : List String := draft.rule.keywords.map (·.1)

/-- The names that the meta-schemas of drafts 4, 6, 7 and 2020-12 have for the properties of schemas.
    Of `const` and `default` they demand nothing. -/
def commonNames : List String := [four, six, seven, twenty].flatMap keywordNames ++ ["const", "default"]

/-- The names that are no vendor keywords in documents of a dialect. -/
def knownNames (draft : Draft) : List String :=
  if draft = three then commonNames ++ three.keywordNames else commonNames

theorem commonNames_subset (draft : Draft) : commonNames ⊆ draft.knownNames := by
  unfold knownNames
  split
  · exact List.subset_append_left _ _
  · exact List.Subset.refl _

end Draft

/-- The names that are no vendor keywords in a document. -/
def Value.knownNames (d : Value) : List String :=
  match Draft.ofDocument d with
  | .ok draft => draft.knownNames
  | .error _ => Draft.commonNames

theorem Value.commonNames_subset (d : Value) : Draft.commonNames ⊆ d.knownNames := by
  unfold knownNames
  split
  · exact Draft.commonNames_subset _
  · exact List.Subset.refl _

/-- What stands at a place in a schema document. -/
inductive Role where
  | schema
  /-- a list of schemas -/
  | schemas
  /-- an object whose values are schemas -/
  | declarations
  /-- anything else -/
  | data
deriving DecidableEq, Repr

/-- What stands under a keyword of a schema. -/
def Role.ofKeyword (name : String) : Role :=
  if name = "items" then .schema
  else if name = "properties" then .declarations
  else if name ∈ ["anyOf", "oneOf", "allOf"] then .schemas
  else .data

/-- A document with at most one keyword added that is not known, with any value. -/
inductive Extended (known : List String) : Role → Value → Value → Prop where
  | same {role : Role} (v : Value) : Extended known role v v
  | vendor {key : String} (hkey : key ∉ known) (v : Value) (before after : Fields) :
      Extended known .schema (.object (before ++ after)) (.object (before ++ (.text key, v) :: after))
  | keyword {name : String} {v w : Value} (before after : Fields) (h : Extended known (Role.ofKeyword name) v w) :
      Extended known .schema (.object (before ++ (.text name, v) :: after))
        (.object (before ++ (.text name, w) :: after))
  | item {v w : Value} (before after : List Value) (h : Extended known .schema v w) :
      Extended known .schemas (.list (before ++ v :: after)) (.list (before ++ w :: after))
  | declaration {key : Scalar} {v w : Value} (before after : Fields) (h : Extended known .schema v w) :
      Extended known .declarations (.object (before ++ (key, v) :: after))
        (.object (before ++ (key, w) :: after))

/-- A keyword that is not known is none of those that fewer names are known of. -/
theorem Extended.mono {known known' : List String} {role : Role} {v w : Value} (h : Extended known' role v w)
    (hsub : known ⊆ known') : Extended known role v w := by
  induction h with
  | same v => exact .same v
  | vendor hkey v before after => exact .vendor (mt (hsub ·) hkey) v before after
  | keyword before after _ ih => exact .keyword before after ih
  | item before after _ ih => exact .item before after ih
  | declaration before after _ ih => exact .declaration before after ih

/-! ## Fields -/

theorem option_rel_refl {α : Type} {R : α → α → Prop} (hrefl : ∀ a, R a a) : ∀ o : Option α, Option.Rel R o o
  | none => .none
  | some a => .some (hrefl a)

section
variable {R : Value → Value → Prop} {key name : String} {v w : Value} {after : Fields}

theorem Fields.named?_insert_of_ne (hne : key ≠ name) (before : Fields) :
    Fields.named? (before ++ (.text key, v) :: after) name = Fields.named? (before ++ after) name := by
  induction before with
  | nil => rw [List.nil_append, List.nil_append, Fields.named?_cons, if_neg (by simpa using hne)]
  | cons f before ih =>
    obtain ⟨k, x⟩ := f
    rw [List.cons_append, List.cons_append, Fields.named?_cons, Fields.named?_cons, ih]

/-- Two objects that differ in the value of one field have related values under each name. -/
theorem Fields.named?_replace (hrefl : ∀ v, R v v) (h : key = name → R v w) (before : Fields) :
    Option.Rel R (Fields.named? (before ++ (.text key, v) :: after) name)
      (Fields.named? (before ++ (.text key, w) :: after) name) := by
  induction before with
  | nil =>
    rw [List.nil_append, List.nil_append, Fields.named?_cons, Fields.named?_cons]
    by_cases hk : key = name
    · rw [if_pos (by rw [hk]), if_pos (by rw [hk])]
      exact .some (h hk)
    · rw [if_neg (by simpa using hk), if_neg (by simpa using hk)]
      exact option_rel_refl hrefl _
  | cons f before ih =>
    obtain ⟨k, x⟩ := f
    rw [List.cons_append, List.cons_append, Fields.named?_cons, Fields.named?_cons]
    by_cases hk : k = .text name
    · rw [if_pos hk, if_pos hk]
      exact .some (hrefl x)
    · rw [if_neg hk, if_neg hk]
      exact ih

end

/-- Under each known name there is the same, with at most one keyword added that is not known. -/
def ExtendedFields (known : List String) (fields fields' : Fields) : Prop :=
  ∀ name ∈ known, Option.Rel (Extended known (Role.ofKeyword name)) (fields.named? name) (fields'.named? name)

/-! ## What stays the same -/

/-- Declarations of the same names, each with at most one keyword added. -/
abbrev ExtendedDeclarations (known : List String) : Fields → Fields → Prop :=
  List.Forall₂ fun f g => f.1 = g.1 ∧ Extended known .schema f.2 g.2

variable {known : List String}

theorem ExtendedDeclarations.refl (fields : Fields) : ExtendedDeclarations known fields fields :=
  List.forall₂_same.2 fun f _ => ⟨rfl, .same f.2⟩

/-- What two documents have in common, of which one has at most one keyword more. -/
inductive Corresponds (known : List String) : Role → Value → Value → Prop where
  | same {role : Role} (v : Value) : Corresponds known role v v
  | schema {fields fields' : Fields} (h : ExtendedFields known fields fields') :
      Corresponds known .schema (.object fields) (.object fields')
  | schemas {vs ws : List Value} (h : List.Forall₂ (Extended known .schema) vs ws) :
      Corresponds known .schemas (.list vs) (.list ws)
  | declarations {fields fields' : Fields} (h : ExtendedDeclarations known fields fields') :
      Corresponds known .declarations (.object fields) (.object fields')

theorem Extended.corresponds {role : Role} {v w : Value} (h : Extended known role v w) :
    Corresponds known role v w := by
  cases h with
  | same => exact .same _
  | @vendor key hkey x before after =>
    refine .schema fun name hname => ?_
    have hne : key ≠ name := fun heq => hkey (heq ▸ hname)
    rw [Fields.named?_insert_of_ne hne]
    exact option_rel_refl (fun v => .same v) _
  | keyword before after h =>
    exact .schema fun name _ => Fields.named?_replace (fun v => .same v) (fun heq => heq ▸ h) before
  | item before after h =>
    have hsame : ∀ xs, List.Forall₂ (Extended known .schema) xs xs := fun xs =>
      List.forall₂_same.2 fun x _ => .same x
    exact .schemas (List.rel_append (hsame before) (.cons h (hsame after)))
  | declaration before after h =>
    exact .declarations (List.rel_append (ExtendedDeclarations.refl before)
      (.cons ⟨rfl, h⟩ (ExtendedDeclarations.refl after)))

section
variable {fields fields' : Fields} (h : ExtendedFields known fields fields') {name : String}
  (hname : name ∈ known)
include h hname

theorem ExtendedFields.has_eq : fields'.has name = fields.has name := by
  have hrel := h name hname
  rw [Fields.has, Fields.has]
  generalize fields.named? name = o, fields'.named? name = o' at hrel
  cases hrel <;> rfl

/-- Keywords under which there are no schemas are the same. -/
theorem ExtendedFields.named?_eq (hdata : Role.ofKeyword name = .data) :
    fields'.named? name = fields.named? name := by
  have hrel := h name hname
  rw [hdata] at hrel
  generalize fields.named? name = o, fields'.named? name = o' at hrel
  cases hrel with
  | some hvw => cases hvw; rfl
  | none => rfl

end

end SchemaGuard
