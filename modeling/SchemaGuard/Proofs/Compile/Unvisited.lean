/-
  SchemaGuard — parts of documents that are not visited.

  `SameVisited d d'` holds of documents that agree in what compiling them consults; wherever a
  reading does not ask for a field, they may differ. Such documents are visited at the same
  places, with the same errors (`SameVisited.visits`).
-/
import Mathlib
import SchemaGuard.Proofs.Compile.Visits

namespace SchemaGuard

/-! ## Agreeing documents -/

/-- A type is this one, or a list in which it occurs. -/
inductive Value.Names (name : String) : Value → Prop
  | self : Names name (.text name)
  | listed {types t} (ht : t ∈ types) (h : Names name t) : Names name (.list types)

theorem Value.Names.text_eq {name s : String} (h : Value.Names name (.text s)) : s = name := by
  cases h; rfl

/-- Documents that agree in what compiling them consults: nodes may differ in all fields that
    their reading does not ask for. -/
inductive SameVisited : Value → Value → Prop
  | self (n : Value) : SameVisited n n
  | reading {fields fields' : Fields} (hr : fields'.reading = fields.reading)
      (ht : ∀ type, fields.reading ≠ .typed type) : SameVisited (.object fields) (.object fields')
  | union {fields fields' : Fields} {keyword : String} {ns ns' : List Value}
      (hr : fields.reading = .union keyword (.list ns)) (hr' : fields'.reading = .union keyword (.list ns'))
      (h : List.Forall₂ SameVisited ns ns') : SameVisited (.object fields) (.object fields')
  | all {fields fields' : Fields} {ns ns' : List Value} (hr : fields.reading = .all (.list ns))
      (hr' : fields'.reading = .all (.list ns')) (h : List.Forall₂ SameVisited ns ns') :
      SameVisited (.object fields) (.object fields')
  | typed {fields fields' : Fields} {type : Value} (hr : fields.reading = .typed type)
      (hr' : fields'.reading = .typed type)
      (hpattern : type.Names "string" → fields.named? "pattern" = fields'.named? "pattern")
      (hitems : type.Names "array" →
        Option.Rel SameVisited (fields.given? "items") (fields'.given? "items"))
      (hnames : type.Names "object" → fields.propertyFields.keys = fields'.propertyFields.keys)
      (hproperties : type.Names "object" →
        List.Forall₂ SameVisited (fields.propertyFields.map (·.2)) (fields'.propertyFields.map (·.2))) :
      SameVisited (.object fields) (.object fields')

/-- Visited nodes at the same place, with the same error of their own. -/
def VisitedAlike [CharacterNames] (v w : String × Value) : Prop := v.1 = w.1 ∧ v.2.ownError v.1 = w.2.ownError w.1

/-- Parts at the same place that agree in what compiling them consults. -/
def PartsAlike (v w : String × Value) : Prop := v.1 = w.1 ∧ SameVisited v.2 w.2

section
variable {fields fields' : Fields}

theorem partsAlike_refl (vs : List (String × Value)) : List.Forall₂ PartsAlike vs vs :=
  List.forall₂_same.2 fun v _ => ⟨rfl, .self v.2⟩

theorem partsAlike_listedAt {ns ns' : List Value} (h : List.Forall₂ SameVisited ns ns') (base : String)
    (i : Nat) : List.Forall₂ PartsAlike (listedAt base ns i) (listedAt base ns' i) := by
  induction h generalizing i with
  | nil => exact .nil
  | cons hn _ ih => exact .cons ⟨rfl, hn⟩ (ih (i + 1))

theorem partsAlike_propertiesAt {properties properties' : Fields} (hkeys : properties.keys = properties'.keys)
    (h : List.Forall₂ SameVisited (properties.map (·.2)) (properties'.map (·.2))) (base : String) :
    List.Forall₂ PartsAlike (propertiesAt base properties) (propertiesAt base properties') := by
  induction properties generalizing properties' with
  | nil =>
    cases properties' with
    | nil => exact .nil
    | cons => cases hkeys
  | cons f properties ih =>
    obtain ⟨key, n⟩ := f
    cases properties' with
    | nil => cases hkeys
    | cons f' properties' =>
      obtain ⟨key', n'⟩ := f'
      obtain ⟨hkey, hothers⟩ := List.cons.inj hkeys
      obtain ⟨hn, hrest⟩ := List.forall₂_cons.1 h
      dsimp only at hkey
      subst hkey
      cases key with
      | text name => exact .cons ⟨rfl, hn⟩ (ih hothers hrest)
      | _ =>
        have hskipped : List.Forall₂ PartsAlike (propertiesAt base properties) (propertiesAt base properties') :=
          ih hothers hrest
        exact hskipped

/-- What nodes under a type that agree have in common. -/
structure AgreeUnder (type : Value) (fields fields' : Fields) : Prop where
  pattern : type.Names "string" → fields.named? "pattern" = fields'.named? "pattern"
  items : type.Names "array" → Option.Rel SameVisited (fields.given? "items") (fields'.given? "items")
  names : type.Names "object" → fields.propertyFields.keys = fields'.propertyFields.keys
  properties : type.Names "object" →
    List.Forall₂ SameVisited (fields.propertyFields.map (·.2)) (fields'.propertyFields.map (·.2))

theorem AgreeUnder.typeError_eq [CharacterNames] {type : Value} (h : AgreeUnder type fields fields') (p : String) :
    fields.typeError type p = fields'.typeError type p := by
  unfold Fields.typeError
  split
  next => rfl
  next => rfl
  next => simp only [Fields.named, h.pattern .self]
  next =>
    have hitems := h.items .self
    generalize fields.given? "items" = o, fields'.given? "items" = o' at hitems
    cases hitems <;> rfl
  next => rfl

/-- The copies of agreeing nodes under one of their types agree. -/
theorem AgreeUnder.copy {type t : Value} (h : AgreeUnder type fields fields')
    (hr : fields.reading = .typed type) (hr' : fields'.reading = .typed type)
    (ht : ∀ name, t.Names name → type.Names name) :
    SameVisited (.object (fields.set "type" t)) (.object (fields'.set "type" t)) := by
  refine .typed (Fields.reading_set_type hr t) (Fields.reading_set_type hr' t) (fun hname => ?_)
    (fun hname => ?_) (fun hname => ?_) fun hname => ?_
  · rw [Fields.named?_set_type (by decide), Fields.named?_set_type (by decide)]
    exact h.pattern (ht _ hname)
  · rw [Fields.items_set_type, Fields.items_set_type]
    exact h.items (ht _ hname)
  · rw [Fields.propertyFields_set_type, Fields.propertyFields_set_type]
    exact h.names (ht _ hname)
  · rw [Fields.propertyFields_set_type, Fields.propertyFields_set_type]
    exact h.properties (ht _ hname)

theorem AgreeUnder.parts {type : Value} (h : AgreeUnder type fields fields')
    (hr : fields.reading = .typed type) (hr' : fields'.reading = .typed type) (p : String) :
    List.Forall₂ PartsAlike (fields.enteredUnder type p) (fields'.enteredUnder type p) := by
  unfold Fields.enteredUnder
  split
  next types =>
    refine partsAlike_listedAt ?_ _ 0
    refine List.forall₂_map_left_iff.2 (List.forall₂_map_right_iff.2 (List.forall₂_same.2 fun t ht => ?_))
    exact h.copy hr hr' fun name => .listed ht
  next =>
    have hitems := h.items .self
    generalize fields.given? "items" = o, fields'.given? "items" = o' at hitems
    cases hitems with
    | none => exact .nil
    | some hn => exact .cons ⟨rfl, hn⟩ .nil
  next => exact partsAlike_propertiesAt (h.names .self) (h.properties .self) _
  next => exact .nil

/-- Agreeing documents have the same error of their own, and agreeing parts. -/
theorem SameVisited.step [CharacterNames] {d d' : Value} (h : SameVisited d d') (p : String) :
    d.ownError p = d'.ownError p ∧ List.Forall₂ PartsAlike (d.entered p) (d'.entered p) := by
  cases h with
  | self => exact ⟨rfl, partsAlike_refl _⟩
  | @reading fields fields' hr ht =>
    cases hreading : Fields.reading fields with
    | typed type => exact absurd hreading (ht type)
    | _ =>
      simp only [Value.ownError, Value.entered, hr, hreading]
      exact ⟨trivial, partsAlike_refl _⟩
  | union hr hr' h =>
    simp only [Value.ownError, Value.entered, hr, hr']
    refine ⟨?_, partsAlike_listedAt h _ 0⟩
    cases h <;> rfl
  | all hr hr' h =>
    simp only [Value.ownError, Value.entered, hr, hr']
    exact ⟨rfl, partsAlike_listedAt h _ 0⟩
  | @typed fields fields' type hr hr' hpattern hitems hnames hproperties =>
    have h : AgreeUnder type fields fields' := ⟨hpattern, hitems, hnames, hproperties⟩
    simp only [Value.ownError, Value.entered, hr, hr']
    exact ⟨h.typeError_eq p, h.parts hr hr' p⟩

/-- Agreeing documents are visited at the same places, with the same errors. -/
theorem SameVisited.visits [CharacterNames] {d d' : Value} (h : SameVisited d d') (p : String) :
    List.Forall₂ VisitedAlike (visits d p) (visits d' p) := by
  obtain ⟨hown, hparts⟩ := h.step p
  rw [visits_eq, visits_eq]
  refine .cons ⟨rfl, hown⟩ ?_
  have hsmall : ∀ v ∈ d.entered p, sizeOf v.2 < sizeOf d := fun v hv => Value.sizeOf_entered hv
  generalize d.entered p = vs, d'.entered p = ws at hparts hsmall
  induction hparts with
  | nil => exact .nil
  | @cons v w vs ws hvw _ ih =>
    obtain ⟨hlt, hrest⟩ := List.forall_mem_cons.1 hsmall
    obtain ⟨q, n⟩ := v
    obtain ⟨q', m⟩ := w
    obtain ⟨rfl, hnm⟩ := hvw
    rw [visitsAll_cons, visitsAll_cons]
    exact List.rel_append (hnm.visits q) (ih hrest)
termination_by sizeOf d

theorem firstError_congr [CharacterNames] {vs ws : List (String × Value)} (h : List.Forall₂ VisitedAlike vs ws) :
    firstError vs = firstError ws := by
  induction h with
  | nil => rfl
  | @cons v w vs ws hvw _ ih =>
    obtain ⟨q, n⟩ := v
    obtain ⟨q', m⟩ := w
    rw [firstError_cons, firstError_cons, ih, hvw.2]

end

end SchemaGuard
