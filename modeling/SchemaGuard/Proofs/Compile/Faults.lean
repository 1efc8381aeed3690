/-
  SchemaGuard — when validation ends without a verdict.

  * `Validator.shown`: the parts of its schema that the messages of a node show;
    `Violates.showable`: what a finding shows is among them, or is in the value;
  * `throughout_showable`: the messages of a compiled tree can show what they show of the
    schema, if no integer in it has too many digits.

  Main result: `compile_faults`, that a validator of a checked schema gives a verdict
  on every value, unless it meets an integer that is too large for a double or, which
  only draft 3 admits, a bound that is no number.
-/
import Mathlib
import SchemaGuard.Proofs.MetaSchema.Bounds
import SchemaGuard.Proofs.Validator.Asking

namespace SchemaGuard

open Validator

/-! ## What messages show -/

/-- The data in the message of a finding. -/
def Finding.shown : Finding → List Value
  | notExpected expected => [expected]
  | notAnOption _ received => [received]
  | tooShort limit | tooLong limit | tooFewItems limit | tooManyItems limit => [limit]
  | patternMismatch source => [source]
  | belowMinimum limit | notAboveMinimum limit | aboveMaximum limit | notBelowMaximum limit =>
    [.number limit]
  | unknownKeys keys => keys.map .scalar
  | _ => []

/-- A message can show the finding. -/
def Finding.Showable (f : Finding) : Prop := ∀ x ∈ f.shown, x.Showable

/-- The parts of its schema that the messages of a node show. -/
def Validator.shown : Validator → List Value
  | literal _ expected => [expected]
  | text p rules => (text p rules).sizeBounds ++ rules.patternSource.toList
  | number _ rules =>
    (rules.minimum.toList ++ rules.exclusiveMinimum.toList ++ rules.maximum.toList ++
      rules.exclusiveMaximum.toList).map .number
  | list p items rules => (list p items rules).sizeBounds
  | _ => []

/-- A node finds nothing that its messages cannot show, if they can show what it is asked about. -/
theorem Validator.Violates.showable {W : Validator} {x : Value} {rest : Path} {f : Finding}
    (h : W.Violates x rest f) (hW : ∀ y ∈ W.shown, y.Showable) (hx : x.Showable) : f.Showable := by
  cases h with
  | notExpected _ => exact hW
  | notAnOption _ => exact List.forall_mem_singleton.2 hx
  | tooShort hb | tooLong hb | tooFewItems _ hb | tooManyItems _ hb =>
    exact List.forall_mem_singleton.2 (hW _ (by simp [Validator.shown, sizeBounds, hb]))
  | @patternMismatch _ rules =>
    refine List.forall_mem_singleton.2 ?_
    cases hsource : rules.patternSource with
    | none => decide
    | some source => exact hW _ (by simp [Validator.shown, hsource])
  | belowMinimum _ hb | notAboveMinimum _ hb | aboveMaximum _ hb | notBelowMaximum _ hb =>
    exact List.forall_mem_singleton.2 (hW _ (by simp [Validator.shown, hb]))
  | unknownKeys _ =>
    intro y hy
    obtain ⟨k, hk, rfl⟩ := List.mem_map.1 hy
    obtain ⟨field, hfield, rfl⟩ := List.mem_map.1 hk
    have hkey := (Value.showable_object.1 hx).1 _ (List.mem_map_of_mem (mem_undeclared.1 hfield).1)
    exact Value.forall_parts_scalar.2 hkey
  | _ => exact List.forall_mem_nil _

/-- What the messages of a node show can be shown. -/
def Validator.ShowsWell (W : Validator) : Prop := ∀ y ∈ W.shown, y.Showable

theorem Validator.ShowsWell.of_nil {W : Validator} (h : W.shown = []) : W.ShowsWell := by
  rw [ShowsWell, h]
  exact List.forall_mem_nil _

section
variable {fields : Fields}

theorem Value.Showable.given? (h : Value.Showable (.object fields)) (k : String) :
    ∀ b ∈ (fields.given? k).toList, b.Showable := by
  intro b hb
  rw [Option.mem_toList, Fields.given?_eq_some_iff] at hb
  exact h.named? hb.1

theorem Value.Showable.numeric? (h : Value.Showable (.object fields)) (k : String) :
    ∀ n ∈ (fields.numeric? k).toList, Value.Showable (.number n) := by
  intro n hn
  obtain ⟨b, hb, hnumber⟩ := Option.bind_eq_some_iff.1 (Option.mem_toList.1 hn)
  rw [number?_eq_some_iff] at hnumber
  exact hnumber ▸ h.named? hb

theorem Value.Showable.of_reading (h : Value.Showable (.object fields)) :
    match fields.reading with
      | .literal v | .choices v => v.Showable
      | .union _ (.list nodes) | .all (.list nodes) => ∀ n ∈ nodes, n.Showable
      | _ => True := by
  have hfrom := fields.reading_isFrom
  split
  next hr => rw [hr] at hfrom; exact h.named? hfrom
  next hr => rw [hr] at hfrom; exact h.named? hfrom
  next hr => rw [hr] at hfrom; exact showable_list.1 (h.named? hfrom.2)
  next hr => rw [hr] at hfrom; exact showable_list.1 (h.named? hfrom)
  next => trivial

theorem Value.Showable.declared (h : Value.Showable (.object fields)) {declared : Fields}
    (hd : fields.declared? = some declared) : ∀ f ∈ declared, f.2.Showable := by
  unfold Fields.declared? at hd
  split at hd
  next => cases hd; exact nofun
  next hp => cases hd; exact (showable_object.1 (h.named? hp)).2
  next => split at hd <;> cases hd; exact nofun

end

/-- A tree shows parts of its schema only. -/
theorem throughout_showable [CharacterNames] {s : Value} {mode : Closedness} {p : String} {V : Validator}
    (hs : s.Showable) (hV : compile s mode p = .ok V) : V.Throughout ShowsWell := by
  have hleaf : ∀ W : Validator, W.children = [] → W.ShowsWell → W.Throughout ShowsWell :=
    fun W hc hW => throughout_iff.2 ⟨hW, by simp [hc]⟩
  have hliteral : ∀ (q : String) {e : Value}, e.Showable → (literal q e).Throughout ShowsWell :=
    fun q e he => hleaf _ rfl (List.forall_mem_singleton.2 he)
  have hnumber : ∀ {fields : Fields}, Value.Showable (.object fields) → ∀ (q : String) (integer : Bool),
      (compileNumber fields q integer).Throughout ShowsWell := fun h q integer => by
    refine hleaf _ rfl ?_
    simp only [ShowsWell, Validator.shown, compileNumber, List.forall_mem_map, List.forall_mem_append]
    exact ⟨⟨⟨h.numeric? _, h.numeric? _⟩, h.numeric? _⟩, h.numeric? _⟩
  have hsteps : Compositional mode (fun n _ W => n.Showable → W.Throughout ShowsWell)
      (fun fields _ _ W => Value.Showable (.object fields) → W.Throughout ShowsWell) := {
    bool := fun b p _ => by cases b <;> exact hleaf _ rfl (.of_nil rfl)
    literal := fun fields p v hr h => by
      have hv := h.of_reading
      rw [hr] at hv
      exact hliteral p hv
    choices := fun fields p values V hr hV h => by
      have hv := h.of_reading
      rw [hr] at hv
      obtain ⟨es, rfl, -, ⟨e, rfl, rfl⟩ | ⟨texts, -, rfl⟩ | ⟨-, rfl⟩⟩ := compileEnum_eq_ok hV
      · exact hliteral p (Value.showable_list.1 hv e (by simp))
      · exact hleaf _ rfl (.of_nil rfl)
      · refine throughout_iff.2 ⟨.of_nil rfl, fun c hc => ?_⟩
        obtain ⟨e, he, rfl⟩ := List.mem_map.1 hc
        exact hliteral _ (Value.showable_list.1 hv e.1 (List.fst_mem_of_mem_zipIdx he))
    union := fun fields p keyword nodes Vs V hr hVs hV h => by
      have hnodes := h.of_reading
      rw [hr] at hnodes
      exact throughout_unionOf hV (hVs.forall_mem fun n hn q W hW => hW (hnodes n hn)) (.of_nil rfl)
    all := fun fields p nodes Vs hr hVs h => by
      have hnodes := h.of_reading
      rw [hr] at hnodes
      exact throughout_intersectionOf (hVs.forall_mem fun n hn q W hW => hW (hnodes n hn)) (.of_nil rfl)
        fun _ _ => .of_nil rfl
    typed := fun fields p type V _ hV => hV
    free := fun fields p _ _ => hleaf _ rfl (.of_nil rfl)
    types := fun fields p types Vs V hVs hV h =>
      throughout_unionOf hV (hVs.forall_mem fun _ _ _ _ hW => hW h) (.of_nil rfl)
    untyped := fun fields p _ => hleaf _ rfl (.of_nil rfl)
    text := fun fields p V hV h => by
      obtain ⟨pattern, -, hV⟩ := bind_eq_ok_iff.1 hV
      cases hV
      refine hleaf _ rfl ?_
      simp only [ShowsWell, Validator.shown, sizeBounds, List.forall_mem_append]
      exact ⟨⟨h.given? _, h.given? _⟩, h.given? _⟩
    number := fun fields p h => hnumber h p false
    integer := fun fields p h => hnumber h p true
    boolean := fun fields p _ => hleaf _ rfl (.of_nil rfl)
    null := fun fields p _ => hleaf _ rfl (.of_nil rfl)
    array := fun fields p node items hn hi h => by
      refine throughout_iff.2 ⟨?_, List.forall_mem_singleton.2 (hi (h.named? hn))⟩
      simp only [ShowsWell, Validator.shown, sizeBounds, List.forall_mem_append, listRules]
      exact ⟨h.given? _, h.given? _⟩
    object := fun fields p declared properties required hd hp hr h => by
      refine throughout_iff.2 ⟨.of_nil rfl, fun c hc => ?_⟩
      obtain ⟨q, hq, rfl⟩ := List.mem_map.1 hc
      exact hp.forall_mem (fun f hf _ _ hW => hW (h.declared hd f hf)) q hq }
  exact hsteps.of_compileNode s p V hV hs

/-! ## Verdicts -/

/-- **Validation ends with a verdict, but for huge integers and bounds that are no numbers.** A
    validator compiled from a schema that its meta-schema admits accepts or rejects each value
    exactly where it meets neither; where it does not, it meets what it ends with. No node is
    asked about a huge integer, if all integers of the value are in the range of doubles, and
    bounds are numbers, unless the schema is one of draft 3. All findings on the way can be
    shown: of integers with more digits than `digitLimit`, in the schema or in the value, no
    message could be made. -/
theorem compile_faults [CharacterNames] {s : Value} {q : String} (hs : checkSchema s q = .ok (.ok ()))
    {mode : Closedness} {p : String} {V : Validator} (hV : compile s mode p = .ok V)
    (hshows : s.Showable) {v : Value} (hv : v.Showable) :
    ((∃ verdict, V.run v = .ok verdict) ↔
      ¬ V.Meets v .integerTooLarge ∧ ¬ V.Meets v .boundNotNumber) ∧
    (∀ f, V.run v = .error f → V.Meets v f) ∧
    (v.InRange → ¬ V.Meets v .integerTooLarge) ∧
    (Draft.ofDocument s ≠ .ok .three → ¬ V.Meets v .boundNotNumber) ∧
    ∀ place W x rest f, V.Asks v place W x → W.Violates x rest f → f.Showable := by
  refine ⟨?_, fun f => Meets.of_run_eq_error, ?_, fun hdraft => ?_, fun place W x rest f hask hviolates => ?_⟩
  · rw [exists_run_iff]
    refine ⟨fun h => ⟨h _, h _⟩, fun ⟨hhuge, hbound⟩ f h => ?_⟩
    cases h with
    | hugeInteger hask hn => exact hhuge (.hugeInteger hask hn)
    | unorderedLength hask hb hn => exact hbound (.unorderedLength hask hb hn)
    | unorderedCount hask hxs hb hn => exact hbound (.unorderedCount hask hxs hb hn)
  · rintro hr ⟨hask, hhuge⟩
    have hnode := hr _ (Value.part?_mem_parts hask.part?_eq)
    simp only [Value.isInRangeNode] at hnode
    exact hhuge hnode
  · obtain ⟨draft, hof, hcheck⟩ := checkSchema_eq_ok_iff.1 hs
    exact (numericSizes_of_check (fun hthree => hdraft (hthree ▸ hof)) hcheck hV).not_meets v
  · have hx : x.Showable := hv.part (Value.part?_mem_parts hask.part?_eq)
    exact hviolates.showable (throughout_showable hshows hV W hask.mem_nodes) hx

/-- Any number. -/
def anyNumber : Value := .object [(.text "type", .text "number")]

theorem compile_faults_anyNumber : ∃ V, compile anyNumber .strip "#" = .ok V ∧
    (¬ ∃ verdict, V.run (.int (10 ^ 400)) = .ok verdict) ∧
    ∃ verdict, V.run (.list [.int (10 ^ 400)]) = .ok verdict := by
  have hs : checkSchema anyNumber "#" = .ok (.ok ()) := by cbv
  have hV : compile anyNumber .strip "#" = .ok (.number "#" ⟨false, none, none, none, none⟩) := by cbv
  have hhuge : ¬ withinDoubleRange (10 ^ 400) := by decide +kernel
  obtain ⟨hnumber, -⟩ := compile_faults hs hV (by decide) (v := .int (10 ^ 400)) (by decide +kernel)
  obtain ⟨hlist, -, -, hbound, -⟩ :=
    compile_faults hs hV (by decide) (v := .list [.int (10 ^ 400)]) (by decide +kernel)
  refine ⟨_, hV, fun h => (hnumber.1 h).1 (.hugeInteger .here hhuge), hlist.2 ⟨?_, hbound (by decide)⟩⟩
  -- the only node is asked about the list
  rintro ⟨hask, -⟩
  cases hask with
  | step hl _ => cases hl

end SchemaGuard
