/-
  SchemaGuard — walking through schema documents.

  `s.resolve tokens` is the part of `s` that tokens lead to. A token is the name of a
  field or the decimal position of an item; where a node has a list of types, `type`
  and a position lead to the copy of the node with that type, which no part of the
  document is.
-/
import Mathlib
import SchemaGuard.Value.Basic

namespace SchemaGuard

/-! ## Walking through a schema -/

namespace Value

/-- The part of a value under a token: a field by its name, an item by its decimal
    position. -/
def child? : Value → String → Option Value
  | .object fields, token => Fields.named? fields token
  | .list items, token => (items.zipIdx.find? fun e => toString e.2 == token).map (·.1)
  | _, _ => none

/-- What `type` and a position stand for where a node has a list of types: the copy
    of the node with the type at that position. -/
def underType? : Value → (keyword position : String) → Option Value
  | .object fields, "type", position =>
    match Fields.named? fields "type" with
    | some (.list types) =>
      ((Value.list types).child? position).map fun t => .object (Fields.set fields "type" t)
    | _ => none
  | _, _, _ => none

/-- The part of a schema document that tokens lead to. -/
def resolve : Value → List String → Option Value
  | v, [] => some v
  | v, [token] => v.child? token
  | v, token :: next :: tokens =>
    match v.underType? token next with
    | some copy => copy.resolve tokens
    | none => (v.child? token).bind fun w => w.resolve (next :: tokens)

theorem find?_zipIdx (items : List Value) (k i : Nat) :
    ((items.zipIdx k).find? fun e => toString e.2 == toString (k + i)).map (·.1) = items[i]? := by
  induction items generalizing k i with
  | nil => rfl
  | cons x items ih =>
    rw [List.zipIdx_cons, List.find?_cons]
    cases i with
    | zero => simp
    | succ i =>
      have hne : (toString k == toString (k + (i + 1))) = false := by
        rw [beq_eq_false_iff_ne, ne_eq, Nat.toString_eq_repr, Nat.toString_eq_repr, Nat.repr_inj]
        omega
      rw [hne, show k + (i + 1) = k + 1 + i by omega]
      exact ih (k + 1) i

theorem child?_list (items : List Value) (i : Nat) :
    (Value.list items).child? (toString i) = items[i]? := by
  have hfind := find?_zipIdx items 0 i
  rwa [Nat.zero_add] at hfind

theorem underType?_of_ne {v : Value} {token : String} (h : token ≠ "type") (next : String) :
    v.underType? token next = none := by
  unfold underType?
  split
  next => exact absurd rfl h
  next => rfl

theorem underType?_list (items : List Value) (token next : String) :
    (Value.list items).underType? token next = none := rfl

/-- A node without a list of types is walked through as it is. -/
theorem underType?_object {fields : Fields} (h : ∀ types, fields.named? "type" ≠ some (.list types))
    (token next : String) : (Value.object fields).underType? token next = none := by
  unfold underType?
  split
  next heq =>
    cases heq
    split
    next types ht => exact absurd ht (h types)
    next => rfl
  next => rfl

theorem resolve_cons {v : Value} {token : String} (h : ∀ next, v.underType? token next = none)
    (tokens : List String) :
    v.resolve (token :: tokens) = (v.child? token).bind fun w => w.resolve tokens := by
  cases tokens with
  | nil => simp [resolve]
  | cons next tokens => rw [resolve, h next]

section
variable {fields : Fields} {i : Nat} {tokens : List String}

/-- Tokens behind a keyword with a list of schemas go on in one of them. -/
theorem resolve_branch {keyword : String} {nodes : List Value} {n : Value} (hk : keyword ≠ "type")
    (hnodes : fields.named? keyword = some (.list nodes)) (hn : nodes[i]? = some n) :
    (Value.object fields).resolve (keyword :: toString i :: tokens) = n.resolve tokens := by
  rw [resolve_cons (underType?_of_ne hk), child?, hnodes, Option.bind_some,
    resolve_cons (underType?_list nodes _), child?_list, hn, Option.bind_some]

theorem resolve_type {types : List Value} {t : Value} (ht : fields.named? "type" = some (.list types))
    (hi : types[i]? = some t) :
    (Value.object fields).resolve ("type" :: toString i :: tokens) =
      (Value.object (fields.set "type" t)).resolve tokens := by
  have hunder : (Value.object fields).underType? "type" (toString i) =
      some (.object (fields.set "type" t)) := by
    simp only [underType?, ht, child?_list, hi, Option.map_some]
  rw [resolve, hunder]

theorem resolve_items {node : Value} (hn : fields.named? "items" = some node) :
    (Value.object fields).resolve ("items" :: tokens) = node.resolve tokens := by
  rw [resolve_cons (underType?_of_ne (by decide)), child?, hn, Option.bind_some]

theorem resolve_property {declared : Fields} {name : String} {node : Value}
    (hd : fields.named? "properties" = some (.object declared)) (hn : declared.named? name = some node)
    (hlist : ∀ types, declared.named? "type" ≠ some (.list types)) :
    (Value.object fields).resolve ("properties" :: name :: tokens) = node.resolve tokens := by
  rw [resolve_cons (underType?_of_ne (by decide)), child?, hd, Option.bind_some,
    resolve_cons (underType?_object hlist _), child?, hn, Option.bind_some]

end

end Value

end SchemaGuard
