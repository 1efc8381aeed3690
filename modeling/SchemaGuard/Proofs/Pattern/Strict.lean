/-
  SchemaGuard — expressions whose `$` means the end.

  `e.strict` is an expression with `\Z` in place of every `$`. It has the width of `e` and the
  same parts that cannot be matched. In a text without line ends it matches where `e` does
  (`searchFrom_strict`).
-/
import Mathlib
import SchemaGuard.Pattern.Matcher

namespace SchemaGuard.Pattern

/-! ## Strict expressions -/

/-- A place with the end of the text in place of `$`. -/
def Place.strict : Place → Place
  | .finish => .textEnd
  | p => p

namespace Expr

mutual
/-- The expression with `\Z` in place of every `$`. -/
def strict : Expr → Expr
  | .literal code => .literal code
  | .any => .any
  | .set negated members => .set negated members
  | .at place => .at place.strict
  | .capture group body => .capture group body.strict
  | .modal on off body => .modal on off body.strict
  | .atomic body => .atomic body.strict
  | .look direction negated body => .look direction negated body.strict
  | .back group => .back group
  | .choose group yes no => .choose group yes.strict no.strict
  | .repeated least greatest mode body => .repeated least greatest mode body.strict
  | .seq parts => .seq (strictAll parts)
  | .alt branches => .alt (strictAll branches)
/-- The expressions with `\Z` in place of every `$`. -/
def strictAll : List Expr → List Expr
  | [] => []
  | e :: es => e.strict :: strictAll es
end

theorem strictAll_eq_map (es : List Expr) : strictAll es = es.map strict := by
  induction es with
  | nil => rfl
  | cons e es ih => rw [strictAll, ih, List.map_cons]

mutual
/-- Places take no characters, so which place it is does not show in the width. -/
theorem width_strict (groups : Nat → Width) : ∀ e : Expr, e.strict.width groups = e.width groups
  | .literal _ | .any | .set _ _ | .back _ | .at _ | .look _ _ _ => rfl
  | .capture _ body | .modal _ _ body | .atomic body | .repeated _ _ _ body => by
    simp only [strict, width, width_strict groups body]
  | .choose _ yes no => by simp only [strict, width, width_strict groups yes, width_strict groups no]
  | .seq parts => by simp only [strict, width, widthSeq_strictAll groups parts]
  | .alt branches => by simp only [strict, width, widthAlt_strictAll groups branches]
theorem widthSeq_strictAll (groups : Nat → Width) : ∀ es : List Expr,
    widthSeq groups (strictAll es) = widthSeq groups es
  | [] => rfl
  | e :: es => by simp only [strictAll, widthSeq, width_strict groups e, widthSeq_strictAll groups es]
theorem widthAlt_strictAll (groups : Nat → Width) : ∀ es : List Expr,
    widthAlt groups (strictAll es) = widthAlt groups es
  | [] => rfl
  | [e] => by simp only [strictAll, widthAlt, width_strict groups e]
  | e :: d :: es => by
    have h := widthAlt_strictAll groups (d :: es)
    simp only [strictAll] at h ⊢
    simp only [widthAlt, width_strict groups e, h]
end

mutual
theorem problem?_strict (template : Bool) : ∀ e : Expr, e.strict.problem? template = e.problem? template
  | .literal _ | .any | .set _ _ | .back _ | .at _ => rfl
  | .capture _ body | .modal _ _ body | .atomic body | .look .ahead _ body | .look (.behind _ _) _ body
  | .repeated _ _ _ body => by
    simp only [strict, problem?, problem?_strict template body]
  | .choose _ yes no => by
    simp only [strict, problem?, problem?_strict template yes, problem?_strict template no]
  | .seq parts => by simp only [strict, problem?, problemIn?_strictAll template parts]
  | .alt branches => by simp only [strict, problem?, problemIn?_strictAll template branches]
theorem problemIn?_strictAll (template : Bool) : ∀ es : List Expr,
    problemIn? template (strictAll es) = problemIn? template es
  | [] => rfl
  | e :: es => by
    simp only [strictAll, problemIn?, problem?_strict template e, problemIn?_strictAll template es]
end

end Expr

/-! ## Texts without line ends -/

/-- A spot in a text without line ends. -/
def Spot.OneLine (s : Spot) : Prop := '\n' ∉ s.before ∧ '\n' ∉ s.after

/-- The same outcome, in a text without line ends. -/
def SameOutcome (o o' : Option Spot) : Prop := o = o' ∧ ∀ t ∈ o, t.OneLine

/-- In a text without line ends two matchers have the same outcome, if what remains has. -/
def MatchAlike (m m' : Matcher) : Prop :=
  ∀ s next next', s.OneLine → (∀ t : Spot, t.OneLine → SameOutcome (next t) (next' t)) →
    SameOutcome (m s next) (m' s next')

namespace Spot.OneLine
variable {s t : Spot}

theorem step {c : Char} (h : s.OneLine) (hs : s.step = some (c, t)) : t.OneLine := by
  unfold Spot.step at hs
  split at hs
  next => cases hs
  next d after hafter =>
    cases hs
    obtain ⟨hbefore, hmem⟩ := h
    rw [hafter, List.mem_cons, not_or] at hmem
    exact ⟨by simpa using ⟨hmem.1, hbefore⟩, hmem.2⟩

theorem back {count : Nat} (h : s.OneLine) (hs : s.back count = some t) : t.OneLine := by
  induction count generalizing s with
  | zero => cases hs; exact h
  | succ count ih =>
    unfold Spot.back at hs
    split at hs
    next => cases hs
    next d before hbefore =>
      obtain ⟨hmem, hafter⟩ := h
      rw [hbefore, List.mem_cons, not_or] at hmem
      exact ih ⟨hmem.2, by simpa using ⟨hmem.1, hafter⟩⟩ hs

theorem pass {agrees : Char → Char → Bool} {cs : List Char} (h : s.OneLine) (hs : s.pass agrees cs = some t) :
    t.OneLine := by
  induction cs generalizing s with
  | nil => cases hs; exact h
  | cons c cs ih =>
    unfold Spot.pass at hs
    split at hs
    next d u hstep =>
      split at hs
      · exact ih (h.step hstep) hs
      · cases hs
    next => cases hs

end Spot.OneLine

namespace SameOutcome
variable {s : Spot} {o o' : Option Spot}

theorem none : SameOutcome .none .none := ⟨rfl, nofun⟩

theorem some (h : s.OneLine) : SameOutcome (.some s) (.some s) := ⟨rfl, fun _ ht => by cases ht; exact h⟩

/-- What is done with the spot of an outcome, or without one. -/
theorem elim {x x' : Option Spot} {next next' : Continuation} : SameOutcome o o' → SameOutcome x x' →
    (∀ t : Spot, t.OneLine → SameOutcome (next t) (next' t)) →
    SameOutcome (match o with | .some t => next t | .none => x) (match o' with | .some t => next' t | .none => x') := by
  rintro ⟨rfl, h⟩ hx hnext
  cases o with
  | none => exact hx
  | some t => exact hnext t (h t rfl)

end SameOutcome

namespace MatchAlike
variable {m m' : Matcher} {least : Nat} {greatest : Option Nat}

theorem greedily (h : MatchAlike m m') (rounds done : Nat) (last : Option Nat) :
    MatchAlike (greedily m least greatest rounds done last) (greedily m' least greatest rounds done last) := by
  induction rounds generalizing done last with
  | zero => exact fun s next next' _ _ => .none
  | succ rounds ih =>
    intro s next next' hs hnext
    rw [Pattern.greedily, Pattern.greedily]
    split
    · exact h s _ _ hs fun t ht => ih _ _ t next next' ht hnext
    · refine .elim ?_ (hnext s hs) fun t ht => .some ht
      split
      · exact h s _ _ hs fun t ht => ih _ _ t next next' ht hnext
      · exact .none

theorem lazily (h : MatchAlike m m') (rounds done : Nat) (last : Option Nat) :
    MatchAlike (lazily m least greatest rounds done last) (lazily m' least greatest rounds done last) := by
  induction rounds generalizing done last with
  | zero => exact fun s next next' _ _ => .none
  | succ rounds ih =>
    intro s next next' hs hnext
    rw [Pattern.lazily, Pattern.lazily]
    split
    · exact h s _ _ hs fun t ht => ih _ _ t next next' ht hnext
    · refine .elim (hnext s hs) ?_ fun t ht => .some ht
      split
      · exact h s _ _ hs fun t ht => ih _ _ t next next' ht hnext
      · exact .none

theorem possessively (h : MatchAlike m m') (rounds done : Nat) (last : Option Nat) {s : Spot} (hs : s.OneLine) :
    SameOutcome (possessively m least greatest rounds done last s) (possessively m' least greatest rounds done last s) := by
  induction rounds generalizing done last s with
  | zero => exact .none
  | succ rounds ih =>
    have hbody : SameOutcome (m s some) (m' s some) := h s some some hs fun t ht => .some ht
    rw [Pattern.possessively, Pattern.possessively]
    split
    · exact .elim hbody .none fun t ht => ih _ _ ht
    · split
      · exact .elim hbody (.some hs) fun t ht => ih _ _ ht
      · exact .some hs

end MatchAlike

theorem Place.holds_strict {s : Spot} (hs : s.OneLine) (flags : Flags) (p : Place) :
    p.strict.holds flags s = p.holds flags s := by
  cases p
  case finish =>
    have hhead : s.after.head? ≠ some '\n' := fun h => hs.2 (List.mem_of_mem_head? h)
    have hend : s.after ≠ ['\n'] := fun h => hs.2 (by rw [h]; exact List.mem_singleton_self _)
    simp [Place.strict, Place.holds, hhead, hend]
  all_goals rfl

namespace Expr

mutual
theorem run_strict (flags : Flags) : ∀ e : Expr, MatchAlike (e.strict.run flags) (e.run flags)
  | .literal _ | .any | .set _ _ => fun s next next' hs hnext => by
    simp only [strict, run]
    split
    next c t hstep =>
      split
      · exact hnext t (hs.step hstep)
      · exact .none
    next => exact .none
  | .at place => fun s next next' hs hnext => by
    simp only [strict, run, Place.holds_strict hs]
    split
    · exact hnext s hs
    · exact .none
  | .capture group body => fun s next next' hs hnext => by
    simp only [strict, run]
    exact run_strict flags body s _ _ hs fun t ht => hnext _ ht
  | .modal on off body => fun s next next' hs hnext => by
    simp only [strict, run]
    exact run_strict _ body s _ _ hs hnext
  | .atomic body => fun s next next' hs hnext => by
    simp only [strict, run]
    exact .elim (run_strict flags body s _ _ hs fun t ht => .some ht) .none hnext
  | .look direction negated body => fun s next next' hs hnext => by
    simp only [strict, run]
    refine .elim ?_ ?_ fun t ht => ?_
    · split
      next u hstart =>
        have hu : u.OneLine := by
          cases direction with
          | ahead => cases hstart; exact hs
          | behind least greatest => exact hs.back hstart
        exact run_strict flags body u _ _ hu fun t ht => .some ht
      next => exact .none
    · split
      · exact hnext s hs
      · exact .none
    · split
      · exact .none
      · exact hnext _ hs
  | .back group => fun s next next' hs hnext => by
    simp only [strict, run]
    split
    next cs _ =>
      split
      next t hpass => exact hnext t (hs.pass hpass)
      next => exact .none
    next => exact .none
  | .choose group yes no => fun s next next' hs hnext => by
    simp only [strict, run]
    split
    · exact run_strict flags yes s _ _ hs hnext
    · exact run_strict flags no s _ _ hs hnext
  | .repeated least greatest mode body => fun s next next' hs hnext => by
    have hbody := run_strict flags body
    simp only [strict, run]
    cases mode with
    | greedy => exact hbody.greedily _ _ _ s _ _ hs hnext
    | lazy => exact hbody.lazily _ _ _ s _ _ hs hnext
    | possessive => exact .elim (hbody.possessively _ _ _ hs) .none hnext
  | .seq parts => fun s next next' hs hnext => by
    simp only [strict, run]
    exact runAll_strict flags parts s _ _ hs hnext
  | .alt branches => fun s next next' hs hnext => by
    simp only [strict, run]
    exact runFirst_strict flags branches s _ _ hs hnext
theorem runAll_strict (flags : Flags) : ∀ es : List Expr, MatchAlike (runAll flags (strictAll es)) (runAll flags es)
  | [] => fun s next next' hs hnext => hnext s hs
  | e :: es => fun s next next' hs hnext => by
    simp only [strictAll, runAll]
    exact run_strict flags e s _ _ hs fun t ht => runAll_strict flags es t _ _ ht hnext
theorem runFirst_strict (flags : Flags) : ∀ es : List Expr,
    MatchAlike (runFirst flags (strictAll es)) (runFirst flags es)
  | [] => fun s next next' hs hnext => .none
  | e :: es => fun s next next' hs hnext => by
    simp only [strictAll, runFirst]
    exact .elim (run_strict flags e s _ _ hs hnext) (runFirst_strict flags es s _ _ hs hnext) fun t ht => .some ht
end

end Expr

/-- In a text without line ends it makes no difference what `$` means. -/
theorem searchFrom_strict (flags : Flags) (e : Expr) {before after : List Char} (offset : Nat)
    (hbefore : '\n' ∉ before) (hafter : '\n' ∉ after) :
    searchFrom flags e.strict before offset after = searchFrom flags e before offset after := by
  have hrun : ∀ {before after : List Char} {offset : Nat}, '\n' ∉ before → '\n' ∉ after →
      e.strict.run flags ⟨before, after, offset, []⟩ some = e.run flags ⟨before, after, offset, []⟩ some :=
    fun hbefore hafter => (e.run_strict flags _ some some ⟨hbefore, hafter⟩ fun t ht => .some ht).1
  induction after generalizing before offset with
  | nil => rw [searchFrom, searchFrom, hrun hbefore hafter]
  | cons c after ih =>
    rw [List.mem_cons, not_or] at hafter
    have hc : '\n' ∉ c :: before := by simpa using ⟨hafter.1, hbefore⟩
    rw [searchFrom, searchFrom, hrun hbefore (by simpa using hafter), ih _ hc hafter.2]

end SchemaGuard.Pattern
