/-
  SchemaGuard — schemas with a marked position.

  A `Context` is a schema in which one position is open; `C.fill n` puts a schema there. The
  position is reached from the root through `properties`, `items`, `anyOf`, `oneOf` and `allOf`,
  and what stands beside it is arbitrary: it may even hide the position, as a `const` does.

  * `Linked R role v w`: what has this role, with schemas related by `R` at the places that the
    role has for schemas;
  * `Context.linked`: a relation that passes from the keywords of nodes to the nodes holds
    of a context filled with related schemas.
-/
import SchemaGuard.Proofs.Compile.Reading
import SchemaGuard.Proofs.Schema.Extension

namespace SchemaGuard

/-- What has a role, with a position for a schema left open. -/
inductive Context : Role → Type where
  | hole : Context .schema
  | keyword (before : Fields) (name : String) (inner : Context (Role.ofKeyword name)) (after : Fields) :
      Context .schema
  | item (before : List Value) (inner : Context .schema) (after : List Value) : Context .schemas
  | declaration (before : Fields) (key : Scalar) (inner : Context .schema) (after : Fields) :
      Context .declarations

/-- A schema put at the open position. -/
def Context.fill {role : Role} (C : Context role) (n : Value) : Value :=
  match C with
  | hole => n
  | keyword before name inner after => .object (before ++ (.text name, inner.fill n) :: after)
  | item before inner after => .list (before ++ inner.fill n :: after)
  | declaration before key inner after => .object (before ++ (key, inner.fill n) :: after)

/-- Declarations of the same names with related schemas. -/
abbrev LinkedDeclarations (R : Value → Value → Prop) : Fields → Fields → Prop :=
  List.Forall₂ fun f g => f.1 = g.1 ∧ R f.2 g.2

/-- The same data, or related schemas at the places that a role has for schemas. -/
inductive Linked (R : Value → Value → Prop) : Role → Value → Value → Prop where
  | same {role : Role} (v : Value) : Linked R role v v
  | schema {v w : Value} (h : R v w) : Linked R .schema v w
  | schemas {vs ws : List Value} (h : List.Forall₂ R vs ws) : Linked R .schemas (.list vs) (.list ws)
  | declarations {fields fields' : Fields} (h : LinkedDeclarations R fields fields') :
      Linked R .declarations (.object fields) (.object fields')

/-- Nodes with linked values under every keyword. -/
def LinkedFields (R : Value → Value → Prop) (fields fields' : Fields) : Prop :=
  ∀ name, Option.Rel (Linked R (Role.ofKeyword name)) (fields.named? name) (fields'.named? name)

section
variable {R : Value → Value → Prop} (hrefl : ∀ v, R v v)
include hrefl

theorem Linked.related {v w : Value} (h : Linked R .schema v w) : R v w := by
  cases h with
  | same => exact hrefl v
  | schema h => exact h

theorem Linked.forall₂ {ns ns' : List Value} (h : Linked R .schemas (.list ns) (.list ns')) :
    List.Forall₂ R ns ns' := by
  cases h with
  | same => exact List.forall₂_same.2 fun n _ => hrefl n
  | schemas h => exact h

theorem LinkedDeclarations.refl (fields : Fields) : LinkedDeclarations R fields fields :=
  List.forall₂_same.2 fun f _ => ⟨rfl, hrefl f.2⟩

/-- A context is linked with itself when it is filled with related schemas, if nodes are related
    whose keywords are linked. -/
theorem Context.linked (hnode : ∀ {fields fields'}, LinkedFields R fields fields' →
    R (.object fields) (.object fields')) {n n' : Value} (hn : R n n') {role : Role} (C : Context role) :
    Linked R role (C.fill n) (C.fill n') := by
  induction C with
  | hole => exact .schema hn
  | keyword before name inner after ih =>
    exact .schema <| hnode fun k => Fields.named?_replace (fun v => .same v) (fun heq => heq ▸ ih) before
  | item before inner after ih =>
    have hsame : ∀ ns, List.Forall₂ R ns ns := fun ns => (Linked.same (.list ns)).forall₂ hrefl
    exact .schemas (List.rel_append (hsame before) (.cons (ih.related hrefl) (hsame after)))
  | declaration before key inner after ih =>
    exact .declarations (List.rel_append (LinkedDeclarations.refl hrefl before)
      (.cons ⟨rfl, ih.related hrefl⟩ (LinkedDeclarations.refl hrefl after)))

end

section
variable {R : Value → Value → Prop} {fields fields' : Fields} (h : LinkedFields R fields fields')
include h

/-- Keywords under which there are no schemas have the same values. -/
theorem LinkedFields.named?_eq (name : String) (hdata : Role.ofKeyword name = .data) :
    fields'.named? name = fields.named? name := by
  have hrel := h name
  rw [hdata] at hrel
  generalize fields.named? name = o, fields'.named? name = o' at hrel
  cases hrel with
  | some hvw => cases hvw; rfl
  | none => rfl

theorem LinkedFields.given?_eq (name : String) (hdata : Role.ofKeyword name = .data) :
    fields'.given? name = fields.given? name := by
  rw [Fields.given?, Fields.given?, h.named?_eq name hdata]

theorem LinkedFields.declared? (hrefl : ∀ v, R v v) :
    Option.Rel (LinkedDeclarations R) fields.declared? fields'.declared? := by
  have hproperties : Option.Rel (Linked R .declarations) (fields.named? "properties")
      (fields'.named? "properties") := h "properties"
  rw [Fields.declared?, Fields.declared?]
  generalize fields.named? "properties" = o, fields'.named? "properties" = o' at hproperties
  cases hproperties with
  | none => exact .some (LinkedDeclarations.refl hrefl _)
  | some hvw =>
    cases hvw with
    | same => exact option_rel_refl (LinkedDeclarations.refl hrefl) _
    | declarations hdeclared => exact .some hdeclared

end

end SchemaGuard
