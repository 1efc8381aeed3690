/-
  SchemaGuard — schemas that give a pattern.

  `compile_pattern` says what a node of type `string` with a pattern compiles to, for every text
  that may be the pattern: a validator, a refusal at the pattern, or a fault, which only a pattern
  with a repeat count beyond the limits or with modes for two alphabets ends in. Such counts do end
  in a fault: `read_of_count`.
-/
import Mathlib
import SchemaGuard.Proofs.Compile.Reading
import SchemaGuard.Proofs.Pattern.Faults

namespace SchemaGuard

namespace Pattern

/-! ## Counts beyond the limits -/

section
variable {α β : Type} {r s : Reading} {c : Char} {left : List Char}

theorem run_bind {x : Reader α} {a : α} (h : x r = .ok (a, s)) (f : α → Reader β) : (x >>= f) r = f a s := by
  simp only [bind, StateT.bind, h, Except.bind]

theorem run_fault {x : Reader α} {e : Failure} (h : x r = .error e) (f : α → Reader β) : (x >>= f) r = .error e := by
  simp only [bind, StateT.bind, h, Except.bind]

theorem run_state (f : Reading → Reader β) : (get >>= f) r = f r r := rfl

theorem front_plain (hc : c ≠ '\\') (hr : r.chars = c :: left) : front r = some (.plain c) := by
  have hproper : (Token.plain c).Proper := by simpa [Token.Proper] using hc
  exact Reading.front_token hproper hr

theorem take_plain (hc : c ≠ '\\') (hleft : left ≠ ['\\']) (hr : r.chars = c :: left) :
    ∃ s, take r = .ok (some (.plain c), s) ∧ s.chars = left := by
  have hproper : (Token.plain c).Proper := by simpa [Token.Proper] using hc
  have hmove : moveOn left 1 r = .ok ((), { r with chars := left, offset := r.offset + 1 }) := by rw [moveOn, if_neg hleft]
  exact ⟨_, by rw [Reading.take_token hproper hr, Token.chars, List.length_singleton, run_bind hmove]; rfl, rfl⟩

theorem takeChar_self (hc : c ≠ '\\') (hleft : left ≠ ['\\']) (hr : r.chars = c :: left) :
    ∃ s, takeChar c r = .ok (true, s) ∧ s.chars = left := by
  obtain ⟨s, hs, hleft⟩ := take_plain hc hleft hr
  exact ⟨s, by rw [takeChar, run_state, if_pos (front_plain hc hr), run_bind hs]; rfl, hleft⟩

theorem takeChar_other {d : Char} (hc : c ≠ '\\') (hd : c ≠ d) (hr : r.chars = c :: left) : takeChar d r = .ok (false, r) := by
  rw [takeChar, run_state, if_neg (by simpa [front_plain hc hr] using hd)]; rfl

theorem takeUpTo_digits {digits : List Char} (hdigits : ∀ c ∈ digits, c.isDigit) (hc : ¬c.isDigit) (hback : c ≠ '\\')
    (hr : r.chars = digits ++ c :: left) {count : Nat} (hcount : digits.length < count) :
    ∃ s, takeUpTo Char.isDigit count r = .ok (digits, s) ∧ s.chars = c :: left := by
  induction digits generalizing r count with
  | nil =>
    obtain ⟨count, rfl⟩ : ∃ k, count = k + 1 := ⟨count - 1, by omega⟩
    refine ⟨r, ?_, hr⟩
    rw [takeUpTo, run_state, front_plain hback hr]
    simp only [if_neg hc]; rfl
  | cons d digits ih =>
    obtain ⟨count, rfl⟩ : ∃ k, count = k + 1 := ⟨count - 1, by omega⟩
    rw [List.forall_mem_cons] at hdigits
    have hd : d ≠ '\\' := by rintro rfl; cases hdigits.1
    have hleft : digits ++ c :: left ≠ ['\\'] := by
      cases digits with
      | nil => simp [hback]
      | cons => simp
    obtain ⟨s, htake, hs⟩ := take_plain hd hleft hr
    obtain ⟨u, hrest, hu⟩ := ih hdigits.2 hs (Nat.lt_of_succ_lt_succ hcount)
    refine ⟨u, ?_, hu⟩
    rw [takeUpTo, run_state, front_plain hd hr]
    simp only [if_pos hdigits.1]
    rw [run_bind htake, run_bind hrest]; rfl

theorem readBounds_of_count {digits : List Char} (hne : digits ≠ [])
    (hdigits : ∀ c ∈ digits, c.isDigit) {f : Failure}
    (hf : ∀ s, repeatCount? digits s = .error f) (hr : r.chars = digits ++ ['\x7d']) : readBounds r = .error f := by
  have hcount : digits.length < r.chars.length := by simp [hr]
  obtain ⟨s, hlow, hs⟩ := takeUpTo_digits hdigits (by decide) (by decide) hr hcount
  obtain ⟨u, hclose, -⟩ := takeChar_self (by decide) (by decide) hs
  have hfront : front r ≠ some (.plain '\x7d') := by
    obtain ⟨d, rest, rfl⟩ := List.exists_cons_of_ne_nil hne
    have hd := hdigits d (by simp)
    rw [front_plain (by rintro rfl; cases hd) hr]
    rintro ⟨⟩
    cases hd
  rw [readBounds, run_state, if_neg hfront, takeAll]
  rw [run_bind (show (get >>= fun r => takeUpTo Char.isDigit r.chars.length) r = _ from hlow), run_bind (takeChar_other (by decide) (by decide) hs)]
  simp only [Bool.false_eq_true, if_false]
  rw [run_bind (show (pure digits : Reader _) s = .ok (digits, s) from rfl), run_bind hclose]
  simp only [if_true]
  exact run_fault (hf u) _

theorem readItems_of_count [CharacterNames] {digits : List Char} (hne : digits ≠ [])
    (hdigits : ∀ c ∈ digits, c.isDigit) {f : Failure}
    (hf : ∀ s, repeatCount? digits s = .error f) (hr : r.chars = 'x' :: '\x7b' :: digits ++ ['\x7d']) (n : Nat) :
    readItems (n + 2) false true [] r = .error f := by
  obtain ⟨s, hx, hs⟩ := take_plain (c := 'x') (by decide) (by simp) hr
  obtain ⟨u, hbrace, hu⟩ := take_plain (c := '\x7b') (by decide)
    (fun heq => by simpa using congrArg List.getLast? heq) hs
  rw [readItems, run_state, front_plain (by decide) hr]
  change (take >>= _) r = _
  rw [run_bind hx]
  change readItems (n + 1) false true [.literal 120] s = _
  rw [readItems, run_state, front_plain (by decide) hs]
  change (take >>= _) s = _
  rw [run_bind hbrace]
  simp only [run_state, Bool.false_and, Bool.false_eq_true, if_false]
  exact run_fault (readBounds_of_count hne hdigits hf hu) _

theorem read_of_count [CharacterNames] {digits : List Char} (hne : digits ≠ []) (hdigits : ∀ c ∈ digits, c.isDigit)
    {f : Failure}
    (hf : ∀ s, repeatCount? digits s = .error f) : read ('x' :: '\x7b' :: digits ++ ['\x7d']) = .error f := by
  have hitems := readItems_of_count (r := Reading.start ('x' :: '\x7b' :: digits ++ ['\x7d'])) hne hdigits hf rfl
  have hwhole : readWhole ('x' :: '\x7b' :: digits ++ ['\x7d']) (Reading.start ('x' :: '\x7b' :: digits ++ ['\x7d'])) =
      .error f := by
    refine run_fault ?_ _
    rw [show ∀ k, 4 * k + 8 = (4 * k + 4) + 4 from fun _ => rfl, readAlternatives]
    refine run_fault ?_ _
    rw [readBranches]
    exact run_fault (hitems _) _
  rw [read, if_neg (by simp)]
  change (readWhole _ (Reading.start _) >>= _) = _
  rw [hwhole]; rfl

end

end Pattern

/-! ## Schemas with a pattern -/

open Pattern

/-- The keywords of a schema for texts with a pattern. -/
def patternFields (pattern : String) : Fields := [(.text "type", .text "string"), (.text "pattern", .text pattern)]

/-- A schema for texts with a pattern. -/
def patternSchema (pattern : String) : Value := .object (patternFields pattern)

section
variable {pattern pointer : String} {mode : Closedness}

theorem named?_patternFields (name : String) : (patternFields pattern).named? name =
    if name = "type" then some (.text "string") else if name = "pattern" then some (.text pattern) else none := by
  simp [patternFields, Fields.named?_cons, eq_comm]

theorem compile_patternSchema [CharacterNames] : compile (patternSchema pattern) mode pointer =
    (compilePattern (.text pattern) (pointer ++ "/pattern")).map fun p =>
      .text pointer ⟨none, none, p, some (.text pattern), false⟩ := by
  have hreading : (patternFields pattern).reading = .typed (.text "string") := by
    simp [Fields.reading, Fields.has, named?_patternFields]
  have hpattern : (patternFields pattern).named "pattern" = .text pattern := by simp [Fields.named, named?_patternFields]
  rw [compile, patternSchema, compileNode, compileFields_eq, hreading]
  simp only [compileTyped, compileText, hpattern, Fields.given?, named?_patternFields]
  cases compilePattern (.text pattern) (pointer ++ "/pattern") <;> rfl

theorem anchorEnd_eq_self {cs : List Char} (h : '$' ∉ cs) : anchorEnd cs = cs := by
  have hpieces : ∀ state : Scan, anchorPieces state (cs.map ([·])) = cs := by
    induction cs with
    | nil => exact fun _ => rfl
    | cons c cs ih =>
      intro state
      rw [List.mem_cons, not_or] at h
      have hc : state.anchored [c] = [c] := if_neg fun hdollar => h.1 (List.cons.inj hdollar.2).1.symm
      rw [List.map_cons, anchorPieces, hc, ih h.2]; rfl
  exact hpieces _

/-- A letter with a repeat count. -/
def countedLetter (digits : List Char) : String := String.ofList ('x' :: '\x7b' :: digits ++ ['\x7d'])

/-- A count beyond the limits is no refusal of the pattern. -/
theorem compilePattern_count [CharacterNames] {digits : List Char} (hdigits : ∀ c ∈ digits, c.isDigit)
    (hlimit : digitLimit < digits.length ∨ repeatLimit ≤ digitsValue 10 digits) :
    compilePattern (.text (countedLetter digits)) pointer =
      .error (.fault (if digitLimit < digits.length then .repeatTooLong else .repeatTooLarge)) := by
  have hne : digits ≠ [] := by rintro rfl; revert hlimit; decide
  have hcount : ∀ s, repeatCount? digits s =
      .error (.fault (if digitLimit < digits.length then .repeatTooLong else .repeatTooLarge)) := by
    intro s
    rw [repeatCount?, if_neg (by simpa using hne)]
    split
    next => rfl
    next hshort => simp only [if_pos (hlimit.resolve_left hshort)]
  have hdollar : '$' ∉ 'x' :: '\x7b' :: digits ++ ['\x7d'] := by
    simp only [List.mem_append, List.mem_cons, List.not_mem_nil, or_false, not_or]
    exact ⟨⟨by decide, by decide, fun hmem => absurd (hdigits _ hmem) (by decide)⟩, by decide⟩
  rw [compilePattern_text, countedLetter, String.toList_ofList, anchorEnd_eq_self hdollar, ofText,
    read_of_count hne hdigits hcount]
  rfl

/-- **A pattern compiles, is refused, or faults for a cause that stands in it.** A node of type `string`
    with any text as its pattern compiles to a validator of texts, which has no pattern only if the text
    is empty; or it is refused at its pattern; or it ends in a fault, which takes a repeat count with too
    many digits or beyond the greatest one, or modes for two alphabets. Each such count of a letter does
    end in the fault. -/
theorem compile_pattern [CharacterNames] (pointer : String) (mode : Closedness) :
    (∀ pattern : String,
      (∃ p, compile (patternSchema pattern) mode pointer = .ok (.text pointer ⟨none, none, p, some (.text pattern), false⟩) ∧
        (p = none ↔ pattern = "") ∧ ∀ q ∈ p, ofText (anchorEnd pattern.toList) = .ok q) ∨
      (∃ r : Refusal, compile (patternSchema pattern) mode pointer =
        SchemaGuard.refuse (.invalidPattern (.text pattern) (r.message (anchorEnd pattern.toList))) (pointer ++ "/pattern")) ∨
      ∃ f, compile (patternSchema pattern) mode pointer = .error (.fault f) ∧ Provokes pattern.toList f) ∧
    ∀ digits : List Char, (∀ c ∈ digits, c.isDigit) →
      digitLimit < digits.length ∨ repeatLimit ≤ digitsValue 10 digits →
      compile (patternSchema (countedLetter digits)) mode pointer =
        .error (.fault (if digitLimit < digits.length then .repeatTooLong else .repeatTooLarge)) := by
  refine ⟨fun pattern => ?_, fun digits hdigits hlimit => ?_⟩
  · rw [compile_patternSchema]
    rw [compilePattern_text]
    rcases hread : ofText (anchorEnd pattern.toList) with (r | f) | q
    · exact Or.inr (Or.inl ⟨r, rfl⟩)
    · exact Or.inr (Or.inr ⟨f, rfl, (provokes_of_ofText hread).of_anchorEnd⟩)
    · refine Or.inl ⟨_, rfl, by split <;> simp_all, fun q' hq => ?_⟩
      split at hq <;> cases hq
      rfl
  · rw [compile_patternSchema, compilePattern_count hdigits hlimit]; rfl

theorem compile_pattern_tooLarge :
    compile (patternSchema "x\x7b4294967295\x7d") .strip "#" = .error (.fault .repeatTooLarge) :=
  (compile_pattern "#" .strip).2 "4294967295".toList (List.all_eq_true.1 (by decide)) (Or.inr (by decide))

-- modes for two alphabets
example : (read "(?a)(?u)x".toList).map (fun _ => ()) = .error (.fault .alphabetsConflict) := by decide +kernel

end

end SchemaGuard
