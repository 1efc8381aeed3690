/-
  SchemaGuard — what anchoring does to the tokens of a pattern.

  The pass over a pattern takes what is between `[` and the next `]` for a set. Reading does so
  too, but for a closing bracket in the first place, which is a member. So between two tokens
  there is a `Region`: both are outside of sets, or inside, or only reading is. The pass works
  token by token: `$` outside becomes the escape `\Z`, everything else stays (`Token.anchored`),
  and brackets change the region (`Token.leaves`).

  * `anchorFrom region cs`: what becomes of the rest of a pattern;
  * `StaysInStep pattern`: the pass and reading agree on where sets and comments end.
-/
import Mathlib
import SchemaGuard.Pattern.Matcher

namespace SchemaGuard.Pattern

/-! ## Tokens -/

/-- A token as reading takes it: a backslash is one only with the character behind it. -/
def Token.Proper (t : Token) : Prop := t ≠ .plain '\\'

/-- Where the pass and reading are between two tokens. -/
inductive Region where
  /-- outside of sets -/
  | outside
  /-- inside of a set -/
  | inside
  /-- inside of a set that the pass takes to be over -/
  | member
deriving DecidableEq, Repr

/-- What the pass knows about a region. -/
def Region.scan : Region → Scan
  | .outside | .member => .plain
  | .inside => .inSet

/-- What becomes of a token. -/
def Token.anchored (region : Region) (t : Token) : Token :=
  if region ≠ .inside ∧ t = .plain '$' then .escaped 'Z' else t

/-- The region behind a token. -/
def Token.leaves (region : Region) (t : Token) : Region :=
  if t = .plain '[' then .inside else if t = .plain ']' then .outside else region

/-- The pass takes a neutral character for itself, wherever it stands. -/
def isNeutral (c : Char) : Bool := c != '$' && c != '[' && c != ']'

/-- What becomes of the rest of a pattern. -/
def anchorFrom (region : Region) (cs : List Char) : List Char := anchorPieces region.scan (cs.map ([·]))

theorem anchorEnd_eq (cs : List Char) : anchorEnd cs = anchorFrom .outside cs := rfl

/-- A test that the three other characters fail tells neutral ones. -/
theorem isNeutral_of {p : Char → Bool} (hdollar : p '$' = false) (hopen : p '[' = false) (hclose : p ']' = false)
    {c : Char} (hc : p c) : isNeutral c := by
  have hne : ∀ {d : Char}, p d = false → c ≠ d := fun hd heq => by rw [heq, hd] at hc; cases hc
  simp [isNeutral, hne hdollar, hne hopen, hne hclose]

theorem Token.Proper.ne_backslash {c : Char} (h : (Token.plain c).Proper) : c ≠ '\\' :=
  fun heq => h (by rw [heq])

section
variable {region : Region} {t : Token} {cs : List Char}

theorem Token.anchored_eq_self (h : t ≠ .plain '$') : t.anchored region = t := by
  rw [anchored, if_neg fun h' => h h'.2]

theorem Token.anchored_escaped (region : Region) (c : Char) : (Token.escaped c).anchored region = .escaped c :=
  anchored_eq_self nofun

theorem Token.anchored_neutral {c : Char} (hc : isNeutral c) : (Token.plain c).anchored region = .plain c :=
  anchored_eq_self fun h => by cases h; cases hc

theorem Token.anchored_inside (t : Token) : t.anchored .inside = t := by
  rw [anchored, if_neg fun h => h.1 rfl]

theorem Token.anchored_cases (region : Region) (t : Token) :
    t.anchored region = t ∨ t = .plain '$' ∧ t.anchored region = .escaped 'Z' := by
  unfold anchored
  split
  next h => exact Or.inr ⟨h.2, rfl⟩
  next => exact Or.inl rfl

theorem Token.Proper.anchored (h : t.Proper) (region : Region) : (t.anchored region).Proper := by
  rcases Token.anchored_cases region t with heq | ⟨-, heq⟩
  · rwa [heq]
  · rw [heq]; exact nofun

theorem Token.anchored_eq_plain_iff {c : Char} (hc : c ≠ '$') :
    t.anchored region = .plain c ↔ t = .plain c := by
  rcases Token.anchored_cases region t with heq | ⟨rfl, heq⟩
  · rw [heq]
  · rw [heq]
    exact iff_of_false nofun fun h => hc (by cases h; rfl)

theorem Token.leaves_eq_self (hopen : t ≠ .plain '[') (hclose : t ≠ .plain ']') : t.leaves region = region := by
  rw [leaves, if_neg hopen, if_neg hclose]

theorem Token.leaves_outside (hopen : t ≠ .plain '[') : t.leaves .outside = .outside := by
  rw [leaves, if_neg hopen, ite_self]

theorem Token.leaves_escaped (region : Region) (c : Char) : (Token.escaped c).leaves region = region :=
  leaves_eq_self nofun nofun

theorem Token.leaves_neutral (region : Region) {c : Char} (hc : isNeutral c) : (Token.plain c).leaves region = region :=
  leaves_eq_self (fun h => by cases h; cases hc) fun h => by cases h; cases hc

theorem Token.neutral (region : Region) (h : ∀ c ∈ t.chars, isNeutral c) :
    t.anchored region = t ∧ t.leaves region = region := by
  cases t with
  | plain c =>
    have hc := h c (List.mem_singleton_self c)
    exact ⟨anchored_neutral hc, leaves_neutral region hc⟩
  | escaped c => exact ⟨anchored_escaped region c, leaves_escaped region c⟩

/-- What is left starts with a token, unless it is empty or a single backslash. -/
theorem exists_token (hcs : cs ≠ []) (hback : cs ≠ ['\\']) :
    ∃ t left, Token.Proper t ∧ cs = t.chars ++ left := by
  rcases cs with _ | ⟨c, left⟩
  · exact absurd rfl hcs
  · by_cases hc : c = '\\'
    · subst hc
      rcases left with _ | ⟨d, left⟩
      · exact absurd rfl hback
      · exact ⟨.escaped d, left, nofun, rfl⟩
    · exact ⟨.plain c, left, fun h => hc (by cases h; rfl), rfl⟩

/-- Behind a token the pass is in the state of the region. -/
theorem Region.scan_leaves {c : Char} (hc : c ≠ '\\') : region.scan.next [c] = ((Token.plain c).leaves region).scan := by
  by_cases hopen : c = '['
  · subst hopen; cases region <;> rfl
  · by_cases hclose : c = ']'
    · subst hclose; cases region <;> rfl
    · cases region <;> simp [scan, Scan.next, Token.leaves, hc, hopen, hclose]

/-- The pass works token by token. -/
theorem anchorFrom_token (h : t.Proper) (cs : List Char) :
    anchorFrom region (t.chars ++ cs) = (t.anchored region).chars ++ anchorFrom (t.leaves region) cs := by
  cases t with
  | escaped c => cases region <;> rfl
  | plain c =>
    have hpiece : region.scan.anchored [c] = ((Token.plain c).anchored region).chars := by
      by_cases hend : c = '$'
      · subst hend; cases region <;> rfl
      · rw [Token.anchored_eq_self (by simpa using hend), Scan.anchored, if_neg fun h => hend (by simpa using h.2)]
        rfl
    rw [Token.chars, List.singleton_append, anchorFrom, List.map_cons, anchorPieces, hpiece,
      Region.scan_leaves h.ne_backslash, anchorFrom]

theorem anchorFrom_nil (region : Region) : anchorFrom region [] = [] := rfl

theorem anchorFrom_ne (hcs : cs ≠ ['\\']) : anchorFrom region cs ≠ ['\\'] := by
  by_cases hnil : cs = []
  · rw [hnil, anchorFrom_nil]; exact nofun
  · obtain ⟨t, left, ht, rfl⟩ := exists_token hnil hcs
    rw [anchorFrom_token ht]
    have hproper := ht.anchored region
    intro heq
    cases hanchored : t.anchored region with
    | plain c =>
      rw [hanchored] at heq hproper
      exact hproper (by rw [(List.cons.inj heq).1])
    | escaped c => rw [hanchored] at heq; cases heq

theorem length_le_anchorFrom (region : Region) (cs : List Char) : cs.length ≤ (anchorFrom region cs).length := by
  have hpieces : ∀ (cs : List Char) (σ : Scan), cs.length ≤ (anchorPieces σ (cs.map ([·]))).length := by
    intro cs
    induction cs with
    | nil => exact fun _ => Nat.le_refl 0
    | cons c cs ih =>
      intro σ
      have hpiece : 1 ≤ (σ.anchored [c]).length := by
        unfold Scan.anchored; split <;> simp
      have hrest := ih (σ.next [c])
      simp only [List.map_cons, anchorPieces, List.length_append, List.length_cons]
      omega
  exact hpieces cs region.scan

end

/-! ## Staying in step -/

/-- No bare `$` stands before the next bare bracket. -/
def isCalm : List Char → Bool
  | '\\' :: _ :: cs => isCalm cs
  | c :: cs => c == '[' || c == ']' || (c != '$' && isCalm cs)
  | [] => true

/-- Whether the pass is outside of sets at the next bare `stop`, if there is one. -/
def outsideAt (stop : Char) : Region → List Char → Bool
  | region, '\\' :: _ :: cs => outsideAt stop region cs
  | region, c :: cs =>
    if c = stop then region = .outside else outsideAt stop ((Token.plain c).leaves region) cs
  | _, [] => true

/-- Whether a character may stand among the modes that a group turns on. -/
def isModeLetter (c : Char) : Bool := c == 'L' || (flag? (.plain c)).isSome

/-- What starts here does not put the pass out of step: a set that starts with a closing bracket
    has no `$` which the pass would take for an anchor, and at the end of a comment the pass is
    outside of sets. Where the pattern is not taken for verbose, no modes make it so. -/
def harmless (verbose : Bool) : List Char → Bool
  | '[' :: ']' :: cs | '[' :: '^' :: ']' :: cs => isCalm cs
  | '(' :: '?' :: '#' :: cs => outsideAt ')' .outside cs
  | '(' :: '?' :: cs => verbose || !(cs.takeWhile isModeLetter).contains 'x'
  | '#' :: cs => !verbose || outsideAt '\n' .outside cs
  | _ => true

/-- Nothing that starts outside of a set puts the pass out of step. -/
def inStep (verbose : Bool) : Scan → List Char → Bool
  | _, [] => true
  | state, c :: cs =>
    (state != .plain || harmless verbose (c :: cs)) && inStep verbose (state.next [c]) cs

/-- The pass over a pattern stays in step with its reading, be it verbose or not. -/
def StaysInStep (pattern : List Char) : Prop := ∃ verbose, inStep verbose .plain pattern

theorem staysInStep_iff {pattern : List Char} : StaysInStep pattern ↔
    inStep false .plain pattern ∨ inStep true .plain pattern := by
  simp [StaysInStep]

instance (pattern : List Char) : Decidable (StaysInStep pattern) :=
  decidable_of_iff' _ staysInStep_iff

section
variable {verbose : Bool} {region : Region} {stop : Char} {t : Token} {c : Char} {cs : List Char}

theorem inStep_token (ht : t.Proper) (h : inStep verbose region.scan (t.chars ++ cs)) :
    inStep verbose (t.leaves region).scan cs := by
  cases t with
  | escaped c =>
    rw [Token.leaves_escaped]
    cases region <;> simp_all [Token.chars, inStep, Region.scan, Scan.next]
  | plain c =>
    rw [Token.chars, List.singleton_append, inStep, Region.scan_leaves ht.ne_backslash, Bool.and_eq_true] at h
    exact h.2

theorem harmless_of_inStep (h : inStep verbose Region.outside.scan (c :: cs)) : harmless verbose (c :: cs) := by
  simp only [inStep, Bool.and_eq_true] at h
  exact h.1

theorem noModes_of_harmless (hc : c ≠ '#') (h : harmless verbose ('(' :: '?' :: c :: cs)) :
    verbose ∨ 'x' ∉ (c :: cs).takeWhile isModeLetter := by
  have hmodes : harmless verbose ('(' :: '?' :: c :: cs) =
      (verbose || !((c :: cs).takeWhile isModeLetter).contains 'x') := by
    simp [harmless, hc]
  rw [hmodes] at h
  simpa using h

theorem isCalm_token (ht : t.Proper) (h : isCalm (t.chars ++ cs)) :
    t ≠ .plain '$' ∧ (t = .plain '[' ∨ t = .plain ']' ∨ isCalm cs) := by
  cases t with
  | escaped c => exact ⟨nofun, Or.inr (Or.inr h)⟩
  | plain c =>
    have hcons : isCalm (c :: cs) = (c == '[' || c == ']' || (c != '$' && isCalm cs)) := by
      cases cs <;> simp [isCalm, ht.ne_backslash]
    rw [Token.chars, List.singleton_append, hcons] at h
    simp only [Bool.or_eq_true, beq_iff_eq, Bool.and_eq_true, bne_iff_ne] at h
    simp only [ne_eq, Token.plain.injEq]
    rcases h with (rfl | rfl) | ⟨hdollar, hcalm⟩
    · exact ⟨by decide, Or.inl rfl⟩
    · exact ⟨by decide, Or.inr (Or.inl rfl)⟩
    · exact ⟨hdollar, Or.inr (Or.inr hcalm)⟩

theorem isCalm_leaves (ht : t.Proper) (h : region = .member → isCalm (t.chars ++ cs))
    (hleaves : t.leaves region = .member) : isCalm cs := by
  unfold Token.leaves at hleaves
  split at hleaves
  · cases hleaves
  · split at hleaves
    · cases hleaves
    next hopen hclose => exact ((isCalm_token ht (h hleaves)).2.resolve_left hopen).resolve_left hclose

theorem outsideAt_stop (ht : (Token.plain stop).Proper) (h : outsideAt stop region (stop :: cs)) :
    region = .outside := by
  cases cs <;> simpa [outsideAt, ht.ne_backslash] using h

theorem outsideAt_token (ht : t.Proper) (h : outsideAt stop region (t.chars ++ cs)) (hstop : t ≠ .plain stop) :
    outsideAt stop (t.leaves region) cs := by
  cases t with
  | escaped c => rwa [Token.leaves_escaped]
  | plain c =>
    have hne : c ≠ stop := fun heq => hstop (by rw [heq])
    rcases cs with _ | ⟨d, cs⟩
    · rfl
    · simpa [Token.chars, outsideAt, ht.ne_backslash, hne] using h

end

end SchemaGuard.Pattern
