/-
  SchemaGuard — pointers and their tokens.

  `Pointer.tokens` reads the text behind the base of a pointer: it is split at the
  slashes, and each part unescaped. So different tokens make different texts,
  whatever characters they hold (`tokens_ofTokens`, `ofTokens_injective`).
-/
import Mathlib.Data.List.Basic
import Mathlib.Data.List.Induction
import SchemaGuard.Pointer

namespace SchemaGuard

namespace Pointer

/-- The tokens of a pointer, by the text behind its base. -/
def tokens (text : String) : List String :=
  (List.splitOn '/' text.toList).tail.map fun written => unescape (String.ofList written)

theorem slash_notMem_escape (token : String) : '/' ∉ (escape token).toList := by
  rw [escape, String.toList_ofList, List.mem_flatMap]
  rintro ⟨c, -, hc⟩
  unfold escapedChar at hc
  split at hc
  next => simp at hc
  next => simp at hc
  next hne => exact hne (List.mem_singleton.1 hc).symm

theorem toList_ofTokens (ts : List String) :
    (ofTokens ts).toList = ts.flatMap fun t => '/' :: (escape t).toList := by
  rw [ofTokens, String.toList_join, List.flatMap_map]
  simp [String.toList_append]

theorem intercalate_slash (w : List Char) (ws : List (List Char)) :
    List.intercalate ['/'] (w :: ws) = w ++ ws.flatMap fun w => '/' :: w := by
  induction ws generalizing w with
  | nil => simp [List.intercalate]
  | cons w' ws ih => rw [List.intercalate_cons_cons, ih, List.flatMap_cons]; simp

/-- Written tokens behind slashes are parts between slashes, behind an empty one. -/
theorem toList_ofTokens_eq_intercalate (ts : List String) :
    (ofTokens ts).toList = List.intercalate ['/'] ([] :: ts.map fun t => (escape t).toList) := by
  rw [intercalate_slash, toList_ofTokens, List.nil_append, List.flatMap_map]

/-- Reading gives back what was written. -/
theorem tokens_ofTokens (ts : List String) : tokens (ofTokens ts) = ts := by
  have hslash : ∀ l ∈ ([] :: ts.map fun t => (escape t).toList), '/' ∉ l := by
    refine List.forall_mem_cons.2 ⟨List.not_mem_nil, fun l hl => ?_⟩
    obtain ⟨t, -, rfl⟩ := List.mem_map.1 hl
    exact slash_notMem_escape t
  rw [tokens, toList_ofTokens_eq_intercalate, List.splitOn_intercalate _ hslash (List.cons_ne_nil _ _),
    List.tail_cons, List.map_map]
  simp only [Function.comp_def, String.ofList_toList, unescape_escape, List.map_id']

theorem ofTokens_injective : Function.Injective ofTokens := fun ts us h => by
  rw [← tokens_ofTokens ts, h, tokens_ofTokens]

theorem ofTokens_append (ts us : List String) : ofTokens (ts ++ us) = ofTokens ts ++ ofTokens us := by
  simp [ofTokens]

theorem append_ofTokens_nil (pointer : String) : pointer ++ ofTokens [] = pointer := String.append_empty

theorem append_ofTokens_cons (pointer t : String) (ts : List String) :
    pointer ++ ofTokens (t :: ts) = child pointer t ++ ofTokens ts := by
  simp [ofTokens, child, String.append_assoc]

/-- What stands before a slash in written tokens is written tokens again. -/
theorem exists_of_ofTokens_eq_append {us ts : List String} {t text : String}
    (h : ofTokens us = text ++ ofTokens (t :: ts)) :
    ∃ before, text = ofTokens before ∧ us = before ++ t :: ts := by
  suffices hchars : ∀ cs, (ofTokens us).toList = cs ++ (ofTokens (t :: ts)).toList →
      ∃ before, cs = (ofTokens before).toList ∧ us = before ++ t :: ts by
    obtain ⟨before, htext, hus⟩ := hchars text.toList (by rw [h, String.toList_append])
    exact ⟨before, String.toList_inj.1 htext, hus⟩
  clear h
  have hbehind : (ofTokens (t :: ts)).toList = '/' :: ((escape t).toList ++ (ofTokens ts).toList) := by
    simp [toList_ofTokens]
  induction us with
  | nil =>
    intro cs h
    rw [hbehind] at h
    simp [toList_ofTokens] at h
  | cons u us ih =>
    intro cs h
    have hus : (ofTokens (u :: us)).toList = '/' :: ((escape u).toList ++ (ofTokens us).toList) := by
      simp [toList_ofTokens]
    cases cs with
    | nil => exact ⟨[], rfl, ofTokens_injective (String.toList_inj.1 h)⟩
    | cons c cs =>
      rw [hus, List.cons_append, List.cons.injEq] at h
      obtain ⟨rfl, h⟩ := h
      -- the text ends behind the first token, or inside it, where no slash is
      have hfirst : ∃ rest, cs = (escape u).toList ++ rest ∧
          (ofTokens us).toList = rest ++ (ofTokens (t :: ts)).toList := by
        rcases List.append_eq_append_iff.1 h with ⟨rest, hcs, hrest⟩ | ⟨rest, hu, hrest⟩
        · exact ⟨rest, hcs, hrest⟩
        · cases rest with
          | nil => exact ⟨[], by simpa using hu.symm, by simpa using hrest.symm⟩
          | cons c rest =>
            rw [hbehind, List.cons_append, List.cons.injEq] at hrest
            refine absurd ?_ (slash_notMem_escape u)
            rw [hu, hrest.1]
            simp
      obtain ⟨rest, rfl, hrest⟩ := hfirst
      obtain ⟨before, rfl, rfl⟩ := ih rest hrest
      exact ⟨u :: before, by simp [toList_ofTokens], rfl⟩

/-! ## Plain tokens -/

/-- A token without special characters is written as it is. -/
theorem escape_eq_self {token : String} (h : ∀ c ∈ token.toList, c ≠ '~' ∧ c ≠ '/') :
    escape token = token := by
  have hchars : ∀ c ∈ token.toList, escapedChar c = [c] := fun c hc => by
    obtain ⟨htilde, hslash⟩ := h c hc
    unfold escapedChar
    split <;> simp_all
  rw [escape, List.flatMap_def, List.map_congr_left hchars, ← List.flatMap_def, List.flatMap_singleton',
    String.ofList_toList]

theorem isDigit_of_mem_toString {i : Nat} {c : Char} (hc : c ∈ (toString i).toList) : c.isDigit :=
  Nat.isDigit_of_mem_toDigits (by decide) (by decide) (Nat.toList_repr ▸ hc)

theorem escape_toString (i : Nat) : escape (toString i) = toString i := by
  refine escape_eq_self fun c hc => ?_
  have hdigit := isDigit_of_mem_toString hc
  refine ⟨?_, ?_⟩ <;> rintro rfl <;> exact absurd hdigit (by decide)

theorem child_eq {token : String} (h : escape token = token) (pointer : String) :
    child pointer token = pointer ++ "/" ++ token := by rw [child, h]

/-! ## Tokens that are not escaped -/

/-- Tokens behind slashes, as they are. -/
def joined (ts : List String) : String := String.join (ts.map fun t => "/" ++ t)

/-- What is read where a token stands as it is: its parts between slashes. -/
def pieces (t : String) : List String :=
  (List.splitOn '/' t.toList).map fun written => unescape (String.ofList written)

/-- A token that is read as it stands. -/
def IsPlain (t : String) : Prop := '/' ∉ t.toList ∧ unescape t = t

instance (t : String) : Decidable (IsPlain t) := inferInstanceAs (Decidable (_ ∧ _))

theorem splitOn_joined (ts : List String) :
    List.splitOn '/' (joined ts).toList = [] :: ts.flatMap fun t => List.splitOn '/' t.toList := by
  induction ts using List.reverseRecOn with
  | nil => simp [joined]
  | append_singleton ts t ih =>
    have happend : (joined (ts ++ [t])).toList = (joined ts).toList ++ '/' :: t.toList := by
      simp [joined]
    rw [happend, List.splitOn_append_cons_self, ih]
    simp

theorem tokens_joined (ts : List String) : tokens (joined ts) = ts.flatMap pieces := by
  rw [tokens, splitOn_joined, List.tail_cons, List.map_flatMap]
  rfl

theorem pieces_of_notMem {t : String} (h : '/' ∉ t.toList) : pieces t = [unescape t] := by
  rw [pieces, List.splitOn_eq_singleton h, List.map_singleton, String.ofList_toList]

/-- A token with a slash is read as two or more. -/
theorem two_le_length_pieces {t : String} (h : '/' ∈ t.toList) : 2 ≤ (pieces t).length := by
  obtain ⟨before, after, ht⟩ := List.append_of_mem h
  have hbefore := List.length_pos_iff.2 (List.splitOn_ne_nil '/' before)
  have hafter := List.length_pos_iff.2 (List.splitOn_ne_nil '/' after)
  rw [pieces, List.length_map, ht, List.splitOn_append_cons_self, List.length_append]
  omega

theorem length_pieces_pos (t : String) : 0 < (pieces t).length := by
  rw [pieces, List.length_map, List.length_pos_iff]
  exact List.splitOn_ne_nil _ _

theorem length_le_flatMap_pieces (ts : List String) : ts.length ≤ (ts.flatMap pieces).length := by
  induction ts with
  | nil => exact Nat.le_refl _
  | cons t ts ih =>
    have := length_pieces_pos t
    rw [List.flatMap_cons, List.length_append, List.length_cons]
    omega

/-- Tokens are read back from where they stand as they are, exactly if they are plain. -/
theorem tokens_joined_eq_iff {ts : List String} : tokens (joined ts) = ts ↔ ∀ t ∈ ts, IsPlain t := by
  rw [tokens_joined]
  induction ts with
  | nil => simp
  | cons t ts ih =>
    rw [List.flatMap_cons, List.forall_mem_cons, ← ih]
    constructor
    · intro h
      have hslash : '/' ∉ t.toList := by
        intro hmem
        have htwo := two_le_length_pieces hmem
        have hrest := length_le_flatMap_pieces ts
        have hlength := congrArg List.length h
        rw [List.length_append, List.length_cons] at hlength
        omega
      rw [pieces_of_notMem hslash, List.singleton_append] at h
      obtain ⟨ht, hrest⟩ := List.cons.inj h
      exact ⟨⟨hslash, ht⟩, hrest⟩
    · rintro ⟨⟨hslash, ht⟩, hrest⟩
      rw [pieces_of_notMem hslash, ht, List.singleton_append, hrest]

/-- Tokens without slashes can be told apart where they stand as they are. -/
theorem eq_of_joined_eq {ts us : List String} (hts : ∀ t ∈ ts, '/' ∉ t.toList)
    (hus : ∀ u ∈ us, '/' ∉ u.toList) (h : joined ts = joined us) : ts = us := by
  have hsplit : ∀ ts : List String, (∀ t ∈ ts, '/' ∉ t.toList) →
      List.splitOn '/' (joined ts).toList = [] :: ts.map String.toList := fun ts hts => by
    rw [splitOn_joined, List.map_eq_flatMap]
    exact congrArg _ (List.flatMap_congr fun t ht => List.splitOn_eq_singleton (hts t ht))
  have heq := hsplit ts hts
  rw [h, hsplit us hus] at heq
  exact (List.map_injective_iff.2 (fun _ _ => String.toList_injective) (List.cons.inj heq).2).symm

end Pointer

end SchemaGuard
