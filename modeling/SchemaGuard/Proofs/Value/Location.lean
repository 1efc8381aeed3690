/-
  SchemaGuard — places inside a value.

  * `v.part? path` walks from `v` along `path`, by keys in objects and by positions in
    sequences, and gives the part where it ends;
  * `v.Locates path`: the walk succeeds, or fails at the last step only, with a key
    that the object there does not have;
  * `v.readPath? tokens` reads the tokens of a pointer text step by step. The token
    `0` is a position in a sequence and a key in an object, so reading looks at `v`.

  Main result: `readPath?_tokens`, that the text of a path that locates something in
  `v` is read back in `v` as this path.
-/
import Mathlib
import SchemaGuard.Proofs.Pointer.Tokens
import SchemaGuard.Proofs.Value.Json

namespace SchemaGuard

namespace Value

/-! ## Walking -/

/-- The part that one step leads to. -/
def enter? : Value → Step → Option Value
  | .object fields, .key name => Fields.named? fields name
  | .list items, .index i | .tuple items, .index i => items[i]?
  | _, _ => none

/-- The part at the end of a path. -/
def part? (v : Value) : Path → Option Value
  | [] => some v
  | step :: path => (v.enter? step).bind fun x => x.part? path

@[simp] theorem part?_nil (v : Value) : v.part? [] = some v := rfl

theorem part?_cons (v : Value) (step : Step) (path : Path) :
    v.part? (step :: path) = (v.enter? step).bind fun x => x.part? path := rfl

theorem part?_append (v : Value) (path rest : Path) :
    v.part? (path ++ rest) = (v.part? path).bind fun x => x.part? rest := by
  induction path generalizing v with
  | nil => rfl
  | cons step path ih =>
    rw [List.cons_append, part?_cons, part?_cons, Option.bind_assoc]
    exact Option.bind_congr fun x _ => ih x

/-- A step into a sequence leads to the element at its position. -/
theorem enter?_index {v : Value} {xs : List Value} (h : v.elements? = some xs) (i : Nat) :
    v.enter? (.index i) = xs[i]? := by
  cases v with
  | list items | tuple items => cases h; rfl
  | _ => cases h

theorem enter?_mem_parts {v x : Value} {step : Step} (h : v.enter? step = some x) : x ∈ v.parts := by
  unfold enter? at h
  split at h
  next => exact field_mem_parts (Fields.mem_of_named? h)
  next => exact item_mem_parts (List.mem_of_getElem? h)
  next => exact List.mem_cons_of_mem _ (mem_partsOfItems.2 ⟨x, List.mem_of_getElem? h, x.self_mem_parts⟩)
  next => cases h

/-- Walking leads to parts. -/
theorem part?_mem_parts {v x : Value} {path : Path} (h : v.part? path = some x) : x ∈ v.parts := by
  induction path generalizing v with
  | nil => cases h; exact self_mem_parts _
  | cons step path ih =>
    obtain ⟨y, hy, hx⟩ := Option.bind_eq_some_iff.1 h
    exact parts_subset (enter?_mem_parts hy) (ih hx)

/-! ## Locations -/

/-- A path ends at a part of a value, or at a key that the object there does not have. -/
def Locates (v : Value) (path : Path) : Prop :=
  (∃ x, v.part? path = some x) ∨
    ∃ place name, ∃ fields : Fields, path = place ++ [.key name] ∧
      v.part? place = some (.object fields) ∧ fields.named? name = none

/-- A location behind a step is the end of the path, or one inside the part there. -/
theorem Locates.cases_cons {v : Value} {step : Step} {path : Path} (h : v.Locates (step :: path)) :
    (∃ x, v.enter? step = some x ∧ x.Locates path) ∨
      path = [] ∧ ∃ name fields, step = .key name ∧ v = .object fields := by
  rcases h with ⟨x, hx⟩ | ⟨_ | ⟨first, place⟩, name, fields, hpath, hplace, hname⟩
  · obtain ⟨y, hy, hx⟩ := Option.bind_eq_some_iff.1 hx
    exact Or.inl ⟨y, hy, Or.inl ⟨x, hx⟩⟩
  · cases hpath
    exact Or.inr ⟨rfl, name, fields, rfl, Option.some.inj hplace⟩
  · cases hpath
    obtain ⟨y, hy, hx⟩ := Option.bind_eq_some_iff.1 hplace
    exact Or.inl ⟨y, hy, Or.inr ⟨place, name, fields, rfl, hx, hname⟩⟩

/-! ## Reading tokens -/

/-- The step that a token stands for: in an object the key with this name, in a
    sequence the position that it writes. -/
def readStep? : Value → String → Option Step
  | .object _, token => some (.key token)
  | .list items, token | .tuple items, token =>
    ((List.range items.length).find? fun i => toString i == token).map .index
  | .scalar _, _ => none

/-- The path that tokens stand for; behind the last token there need be nothing. -/
def readPath? (v : Value) : List String → Option Path
  | [] => some []
  | [token] => (v.readStep? token).map fun step => [step]
  | token :: tokens =>
    (v.readStep? token).bind fun step =>
      (v.enter? step).bind fun x => (x.readPath? tokens).map (step :: ·)

theorem find?_range_toString {n i : Nat} (h : i < n) :
    ((List.range n).find? fun j => toString j == toString i) = some i := by
  refine List.find?_range_eq_some.2 ⟨beq_self_eq_true _, List.mem_range.2 h, fun j hj => ?_⟩
  have hne : j.repr ≠ i.repr := fun heq => hj.ne (Nat.repr_inj.1 heq)
  simpa using hne

/-- The token of a step that leads somewhere is read as this step. -/
theorem readStep?_token {v x : Value} {step : Step} (h : v.enter? step = some x) :
    v.readStep? step.token = some step := by
  cases step with
  | key name =>
    cases v with
    | object fields => rfl
    | _ => cases h
  | index i =>
    cases v with
    | list items | tuple items =>
      have hi : i < items.length := (List.getElem?_eq_some_iff.1 h).1
      rw [readStep?, Step.token, find?_range_toString hi, Option.map_some]
    | _ => cases h

/-- What is read as a step is the token of the step. -/
theorem token_of_readStep? {v : Value} {token : String} {step : Step} (h : v.readStep? token = some step) :
    step.token = token := by
  cases v with
  | scalar s => cases h
  | object fields => cases h; rfl
  | list items | tuple items =>
    obtain ⟨i, hi, rfl⟩ := Option.map_eq_some_iff.1 h
    exact eq_of_beq (List.find?_some (p := fun i => toString i == token) hi)

theorem map_token_of_readPath? {v : Value} {tokens : List String} {path : Path}
    (h : v.readPath? tokens = some path) : path.map Step.token = tokens := by
  induction tokens generalizing v path with
  | nil => cases h; rfl
  | cons token tokens ih =>
    cases tokens with
    | nil =>
      obtain ⟨step, hstep, rfl⟩ := Option.map_eq_some_iff.1 h
      rw [List.map_cons, List.map_nil, token_of_readStep? hstep]
    | cons next tokens =>
      obtain ⟨step, hstep, h⟩ := Option.bind_eq_some_iff.1 h
      obtain ⟨x, -, h⟩ := Option.bind_eq_some_iff.1 h
      obtain ⟨rest, hrest, rfl⟩ := Option.map_eq_some_iff.1 h
      rw [List.map_cons, token_of_readStep? hstep, ih hrest]

/-- **Pointer texts are read back.** Reading the text of a path in a value in which
    the path locates something gives the path. -/
theorem readPath?_tokens {v : Value} {path : Path} (h : v.Locates path) :
    v.readPath? (Pointer.tokens path.text) = some path := by
  rw [Path.text, Pointer.tokens_ofTokens]
  induction path generalizing v with
  | nil => rfl
  | cons step path ih =>
    rcases h.cases_cons with ⟨x, hx, hpath⟩ | ⟨rfl, name, fields, rfl, rfl⟩
    · cases path with
      | nil => rw [List.map_cons, List.map_nil, readPath?, readStep?_token hx, Option.map_some]
      | cons next path =>
        rw [List.map_cons, List.map_cons, readPath?, readStep?_token hx, Option.bind_some, hx,
          Option.bind_some, ← List.map_cons, ih hpath, Option.map_some]
        simp
    · rfl

theorem Locates.readPath?_map_token {v : Value} {path : Path} (h : v.Locates path) :
    v.readPath? (path.map Step.token) = some path := by
  have hread := readPath?_tokens h
  rwa [Path.text, Pointer.tokens_ofTokens] at hread

/-- A path whose tokens are not escaped is read back exactly if they are plain. -/
theorem Locates.readPath?_joined_iff {v : Value} {path : Path} (h : v.Locates path) :
    v.readPath? (Pointer.tokens (Pointer.joined (path.map Step.token))) = some path ↔
      ∀ s ∈ path, Pointer.IsPlain s.token := by
  have hplain : (∀ s ∈ path, Pointer.IsPlain s.token) ↔
      Pointer.tokens (Pointer.joined (path.map Step.token)) = path.map Step.token := by
    rw [Pointer.tokens_joined_eq_iff, List.forall_mem_map]
  rw [hplain]
  refine ⟨fun hread => (map_token_of_readPath? hread).symm, fun htokens => ?_⟩
  rw [htokens, h.readPath?_map_token]

/-- Paths that locate different places of one value have different tokens. -/
theorem Locates.map_token_injective {v : Value} {path path' : Path} (h : v.Locates path)
    (h' : v.Locates path') (heq : path.map Step.token = path'.map Step.token) : path = path' := by
  have hread := h.readPath?_map_token
  rw [heq, h'.readPath?_map_token] at hread
  exact (Option.some.inj hread).symm

/-- Paths that are not escaped can be told apart where their keys have no slashes. -/
theorem Locates.joined_injective {v : Value} {path path' : Path} (h : v.Locates path)
    (h' : v.Locates path') (hslash : ∀ s ∈ path ++ path', '/' ∉ s.token.toList)
    (heq : Pointer.joined (path.map Step.token) = Pointer.joined (path'.map Step.token)) : path = path' := by
  rw [List.forall_mem_append] at hslash
  exact h.map_token_injective h' (Pointer.eq_of_joined_eq (List.forall_mem_map.2 hslash.1)
    (List.forall_mem_map.2 hslash.2) heq)

/-- Paths that locate different places of one value have different texts. -/
theorem Locates.text_injective {v : Value} {path path' : Path} (h : v.Locates path)
    (h' : v.Locates path') (heq : path.text = path'.text) : path = path' := by
  have hread := readPath?_tokens h
  rw [heq, readPath?_tokens h'] at hread
  exact (Option.some.inj hread).symm

end Value

end SchemaGuard
