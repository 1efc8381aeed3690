/-
  SchemaGuard — messages tell findings apart.

  Every message opens with words that are the same for all findings of its kind
  (`Finding.opening`). Some openings go on as others do; but what one node finds at
  one place has different messages (`Violates.finding_eq_of_message_eq`).
-/
import SchemaGuard.Proofs.Validator.Violations

namespace SchemaGuard

/-! ## Texts of numbers -/

theorem o_notMem_toDigits (n : Nat) : 'o' ∉ Nat.toDigits 10 n := fun h => by
  have hdigit := Nat.isDigit_of_mem_toDigits (by decide) (by decide) h
  exact absurd hdigit (by decide)

namespace Double

theorem o_notMem_significantDigits (n : Nat) : 'o' ∉ significantDigits n := fun h => by
  rw [significantDigits, List.mem_reverse] at h
  exact o_notMem_toDigits n (List.mem_reverse.1 ((List.dropWhile_sublist _).subset h))

theorem o_notMem_exponentText (e : Int) : 'o' ∉ exponentText e := by
  have hdigits := o_notMem_toDigits e.natAbs
  have hpadded : 'o' ∉ (if (Nat.toDigits 10 e.natAbs).length < 2 then '0' :: Nat.toDigits 10 e.natAbs
      else Nat.toDigits 10 e.natAbs) := by
    split <;> simp [hdigits]
  unfold exponentText
  rw [List.mem_cons, not_or]
  refine ⟨?_, hpadded⟩
  split <;> decide

theorem o_notMem_layout {ds : List Char} (h : 'o' ∉ ds) (point : Int) : 'o' ∉ layout ds point := by
  have htake : 'o' ∉ ds.take point.toNat := fun ho => h (List.mem_of_mem_take ho)
  have hdrop : 'o' ∉ ds.drop point.toNat := fun ho => h (List.mem_of_mem_drop ho)
  unfold layout
  split
  · split
    · simp [h]
    · dsimp only
      split <;> simp [htake, hdrop]
  · rw [List.mem_append, not_or, List.mem_cons, not_or]
    refine ⟨?_, by decide, o_notMem_exponentText _⟩
    match ds with
    | [] => exact List.not_mem_nil
    | [d] => exact h
    | d :: c :: rest => simp_all

theorem o_notMem_text (d : Double) : 'o' ∉ d.text.toList := by
  cases d with
  | finite negative e f =>
    have hmagnitude : 'o' ∉ magnitudeText (significand e f) (power e) := by
      unfold magnitudeText
      split
      · decide
      · exact o_notMem_layout (o_notMem_significantDigits _) _
    rw [text, String.toList_ofList]
    cases negative <;> simp [hmagnitude]
  | infinite negative => cases negative <;> decide
  | nan label => simp [text]

end Double

theorem Number.o_notMem_text (n : Number) : 'o' ∉ n.text.toList := by
  cases n with
  | int n =>
    rw [text, Int.toString_eq_repr, Int.repr_eq_if]
    split
    · rw [Nat.toList_repr]; exact o_notMem_toDigits _
    · rw [String.toList_append, Nat.toList_repr, List.mem_append, not_or]
      exact ⟨by decide, o_notMem_toDigits _⟩
  | double d => exact d.o_notMem_text

/-! ## Openings -/

namespace Finding

/-- The words with which all messages of a kind of findings open. -/
def opening : Finding → String
  | nothingAllowed => "No value is allowed here"
  | notExpected _ => "Invalid literal value, expected "
  | notAnOption _ _ => "Invalid enum value. Expected "
  | noAlternative _ => "Value did not match any of "
  | wrongKind _ _ => "Expected "
  | tooShort _ => "String must contain at least "
  | tooLong _ => "String must contain at most "
  | patternMismatch _ => "String does not match pattern "
  | notDateTime => "Invalid date-time"
  | fractional => "Expected integer, received float"
  | belowMinimum _ => "Number must be greater than or equal to "
  | notAboveMinimum _ => "Number must be greater than "
  | aboveMaximum _ => "Number must be less than or equal to "
  | notBelowMaximum _ => "Number must be less than "
  | tooFewItems _ => "Array must contain at least "
  | tooManyItems _ => "Array must contain at most "
  | repeatedItem => "Items must be unique"
  | missing => "Required"
  | unknownKeys _ => "Unrecognized key(s) in object: "

/-- The openings of all kinds. -/
def openings : List String :=
  ["No value is allowed here", "Invalid literal value, expected ", "Invalid enum value. Expected ",
   "Value did not match any of ", "Expected ", "String must contain at least ",
   "String must contain at most ", "String does not match pattern ", "Invalid date-time",
   "Expected integer, received float", "Number must be greater than or equal to ",
   "Number must be greater than ", "Number must be less than or equal to ", "Number must be less than ",
   "Array must contain at least ", "Array must contain at most ", "Items must be unique", "Required",
   "Unrecognized key(s) in object: "]

/-- The openings that go on as another one does. -/
def extendedOpenings : List (String × String) :=
  [("Expected ", "Expected integer, received float"),
   ("Number must be greater than ", "Number must be greater than or equal to "),
   ("Number must be less than ", "Number must be less than or equal to ")]

theorem opening_mem_openings (f : Finding) : f.opening ∈ openings := by
  cases f <;> simp [opening, openings]

theorem opening_prefix_message (f : Finding) : f.opening.toList <+: f.message.toList := by
  have hplain {g : Finding} (h : g.message = g.opening) : g.opening.toList <+: g.message.toList :=
    h ▸ List.prefix_rfl
  have hmore {g : Finding} (rest : String) (h : g.message = g.opening ++ rest) :
      g.opening.toList <+: g.message.toList := by
    rw [h, String.toList_append]
    exact List.prefix_append _ _
  cases f with
  | nothingAllowed | notDateTime | fractional | repeatedItem | missing => exact hplain rfl
  | notExpected | patternMismatch | belowMinimum | notAboveMinimum | aboveMaximum | notBelowMaximum
  | unknownKeys => exact hmore _ rfl
  | noAlternative | tooShort | tooLong | tooFewItems | tooManyItems =>
    exact hmore _ String.append_assoc
  | notAnOption | wrongKind => exact hmore _ (String.append_assoc.trans String.append_assoc)

theorem eq_or_extended_of_openings : ∀ s ∈ openings, ∀ t ∈ openings, s.toList <+: t.toList →
    s = t ∨ (s, t) ∈ extendedOpenings := by
  decide +kernel

/-- Findings with one message are of one kind, but for openings that go on as others do. -/
theorem opening_eq_of_message_eq {f g : Finding} (h : f.message = g.message) :
    f.opening = g.opening ∨ (f.opening, g.opening) ∈ extendedOpenings ∨
      (g.opening, f.opening) ∈ extendedOpenings := by
  have hf := f.opening_prefix_message
  rw [h] at hf
  rcases List.prefix_or_prefix_of_prefix hf g.opening_prefix_message with hp | hp
  · exact (eq_or_extended_of_openings _ f.opening_mem_openings _ g.opening_mem_openings hp).imp_right Or.inl
  · exact (eq_or_extended_of_openings _ g.opening_mem_openings _ f.opening_mem_openings hp).imp Eq.symm Or.inr

end Finding

/-! ## Findings of one node at one place -/

namespace Validator

section
variable {W : Validator} {x : Value} {rest : Path} {f g : Finding}

/-- A node finds at most one thing of a kind at a place. -/
theorem Violates.finding_eq (hf : W.Violates x rest f) (hg : W.Violates x rest g)
    (h : f.opening = g.opening) : f = g := by
  cases hf with
  | nothingAllowed | notExpected | notAnOption | noAlternative | wrongKind => cases hg; rfl
  | notText hne =>
    cases hg with
    | notText => rfl
    | _ => exact absurd rfl (hne _)
  | tooShort hb =>
    cases hg with
    | notText hne => exact absurd rfl (hne _)
    | tooShort hb' => rw [Option.some.inj (hb.symm.trans hb')]
    | _ => simp [Finding.opening] at h
  | tooLong hb =>
    cases hg with
    | notText hne => exact absurd rfl (hne _)
    | tooLong hb' => rw [Option.some.inj (hb.symm.trans hb')]
    | _ => simp [Finding.opening] at h
  | patternMismatch =>
    cases hg with
    | notText hne => exact absurd rfl (hne _)
    | patternMismatch => rfl
    | _ => simp [Finding.opening] at h
  | notDateTime =>
    cases hg with
    | notText hne => exact absurd rfl (hne _)
    | notDateTime => rfl
    | _ => simp [Finding.opening] at h
  | notNumber hne =>
    cases hg with
    | notNumber => rfl
    | _ => simp [Finding.opening] at h
  | fractional =>
    cases hg with
    | fractional => rfl
    | _ => simp [Finding.opening] at h
  | belowMinimum _ hb =>
    cases hg with
    | belowMinimum _ hb' => rw [Option.some.inj (hb.symm.trans hb')]
    | _ => simp [Finding.opening] at h
  | notAboveMinimum _ hb =>
    cases hg with
    | notAboveMinimum _ hb' => rw [Option.some.inj (hb.symm.trans hb')]
    | _ => simp [Finding.opening] at h
  | aboveMaximum _ hb =>
    cases hg with
    | aboveMaximum _ hb' => rw [Option.some.inj (hb.symm.trans hb')]
    | _ => simp [Finding.opening] at h
  | notBelowMaximum _ hb =>
    cases hg with
    | notBelowMaximum _ hb' => rw [Option.some.inj (hb.symm.trans hb')]
    | _ => simp [Finding.opening] at h
  | notArray =>
    cases hg with
    | notArray => rfl
    | _ => simp [Finding.opening] at h
  | tooFewItems _ hb =>
    cases hg with
    | tooFewItems _ hb' => rw [Option.some.inj (hb.symm.trans hb')]
    | _ => simp [Finding.opening] at h
  | tooManyItems _ hb =>
    cases hg with
    | tooManyItems _ hb' => rw [Option.some.inj (hb.symm.trans hb')]
    | _ => simp [Finding.opening] at h
  | repeatedItem => cases hg; rfl
  | notObject hne =>
    cases hg with
    | notObject => rfl
    | unknownKeys => exact absurd rfl (hne _)
  | missing => cases hg; rfl
  | unknownKeys =>
    cases hg with
    | notObject hne => exact absurd rfl (hne _)
    | unknownKeys => rfl

/-- A number's text does not go on as the openings of the inclusive bounds do. -/
theorem append_text_ne (n : Number) (opening rest : String) :
    opening ++ n.text ≠ opening ++ "or equal to " ++ rest := by
  intro h
  have htext : n.text.toList = "or equal to ".toList ++ rest.toList := by
    have hlist := congrArg String.toList h
    rw [String.append_assoc, String.toList_append, String.toList_append, String.toList_append] at hlist
    exact List.append_cancel_left hlist
  -- the text of a number has no `o`, with which the longer opening goes on
  refine n.o_notMem_text ?_
  rw [htext]
  exact List.mem_append_left _ (by decide)

/-- Findings whose openings go on as one another have different messages, or one of
    them is about another type. -/
theorem Violates.message_ne_of_extended (hf : W.Violates x rest f) (hg : W.Violates x rest g)
    (h : (f.opening, g.opening) ∈ Finding.extendedOpenings) : f.message ≠ g.message := by
  cases hg with
  | fractional hfinite =>
    cases hf with
    | notNumber hne => exact absurd hfinite hne
    | _ => simp [Finding.extendedOpenings, Finding.opening] at h
  | belowMinimum =>
    cases hf with
    | notAboveMinimum => exact append_text_ne _ "Number must be greater than " _
    | _ => simp [Finding.extendedOpenings, Finding.opening] at h
  | aboveMaximum =>
    cases hf with
    | notBelowMaximum => exact append_text_ne _ "Number must be less than " _
    | _ => simp [Finding.extendedOpenings, Finding.opening] at h
  | _ => simp [Finding.extendedOpenings, Finding.opening] at h

/-- What a node finds at a place can be told from the messages. -/
theorem Violates.finding_eq_of_message_eq (hf : W.Violates x rest f) (hg : W.Violates x rest g)
    (h : f.message = g.message) : f = g := by
  rcases Finding.opening_eq_of_message_eq h with ho | he | he
  · exact hf.finding_eq hg ho
  · exact absurd h (hf.message_ne_of_extended hg he)
  · exact absurd h.symm (hg.message_ne_of_extended hf he)

end

end Validator

end SchemaGuard
