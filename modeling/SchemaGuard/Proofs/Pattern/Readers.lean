/-
  SchemaGuard — the parts of an item, read next to their anchored forms.

  Whatever reads a part of an item reads the same in an anchored pattern: groups and the names
  of groups, escapes, sets, repetition and modes. Sets and comments are where the pass may be
  out of step, so what is read there is known to be harmless.
-/
import Mathlib
import SchemaGuard.Proofs.Pattern.Mirror
import SchemaGuard.Proofs.Pattern.Strict

namespace SchemaGuard.Pattern

/-! ## Names -/

/-- Names of groups have neither brackets nor `$`. -/
theorem isNeutral_of_isIdentifier {name : List Char} (h : Text.isIdentifier name) : ∀ c ∈ name, isNeutral c := by
  cases name with
  | nil => cases h
  | cons first others =>
    simp only [Text.isIdentifier, Bool.and_eq_true, List.all_eq_true] at h
    refine List.forall_mem_cons.2 ⟨?_, fun c hc => ?_⟩
    · exact isNeutral_of (p := fun c => Text.inRanges Text.identifierStartRanges c.toNat) (by decide +kernel)
        (by decide +kernel) (by decide +kernel) h.1
    · exact isNeutral_of (p := fun c => Text.inRanges Text.identifierPartRanges c.toNat) (by decide +kernel)
        (by decide +kernel) (by decide +kernel) (h.2 c hc)

/-- Names of characters have neither brackets nor `$`. -/
theorem isNeutral_of_namedCode? [CharacterNames] {name : List Char} {code : Nat}
    (h : namedCode? name = some code) : ∀ c ∈ name, isNeutral c := by
  unfold namedCode? at h
  split at h
  next hname =>
    exact fun c hc => isNeutral_of rfl rfl rfl (List.all_eq_true.1 hname c hc)
  next => cases h

theorem mem_trim {cs : List Char} {c : Char} (hc : c ∈ cs) : Text.isBlank c.toNat ∨ c ∈ Text.trim cs := by
  have hdrop : ∀ {ds : List Char}, c ∈ ds → Text.isBlank c.toNat ∨ c ∈ ds.dropWhile fun d => Text.isBlank d.toNat := by
    intro ds hds
    rw [← List.takeWhile_append_dropWhile (p := fun d : Char => Text.isBlank d.toNat) (l := ds), List.mem_append] at hds
    exact hds.imp_left fun h => List.mem_takeWhile_imp (p := fun d : Char => Text.isBlank d.toNat) h
  rcases hdrop hc with h | h
  · exact Or.inl h
  · exact (hdrop (List.mem_reverse.2 h)).imp_right List.mem_reverse.2

theorem isNeutral_of_digits {gap : Bool} {value n : Nat} {cs : List Char}
    (h : integer?.digits gap value cs = some n) : ∀ c ∈ cs, isNeutral c := by
  fun_induction integer?.digits gap value cs with
  | case1 => exact nofun
  | case2 => exact nofun
  | case3 => cases h
  | case4 value cs gap hgap ih => exact List.forall_mem_cons.2 ⟨rfl, ih h⟩
  | case5 gap value c cs hc ih =>
    obtain ⟨d, hd, hrest⟩ := Option.bind_eq_some_iff.1 h
    refine List.forall_mem_cons.2 ⟨?_, ih d hrest⟩
    exact isNeutral_of (p := fun c => (Text.digitValue? c.toNat).isSome) (by decide +kernel) (by decide +kernel)
      (by decide +kernel) (by rw [hd]; rfl)

theorem isNeutral_of_integer? {name : List Char} {i : Int} (h : integer? name = some i) : ∀ c ∈ name, isNeutral c := by
  intro c hc
  rcases mem_trim hc with hblank | htrim
  · exact isNeutral_of (p := fun c => Text.isBlank c.toNat) (by decide +kernel) (by decide +kernel)
      (by decide +kernel) hblank
  · unfold integer? at h
    split at h
    next sign body hsign =>
    rw [Option.ite_none_left_eq_some] at h
    obtain ⟨n, hn, -⟩ := Option.map_eq_some_iff.1 h.2
    obtain ⟨value, hvalue, -⟩ := Option.bind_eq_some_iff.1 hn
    have hbody := isNeutral_of_digits hvalue
    split at hsign <;> cases hsign
    next heq =>
      rw [heq] at htrim
      rcases List.mem_cons.1 htrim with rfl | h
      · rfl
      · exact hbody c h
    next heq =>
      rw [heq] at htrim
      rcases List.mem_cons.1 htrim with rfl | h
      · rfl
      · exact hbody c h
    next => exact hbody c htrim

/-! ## What is read -/

/-- An expression with `\Z` in place of `$`, and readings that go on together. -/
def Stricter (verbose : Bool) (region : Region) (e : Expr) (r : Reading) (e' : Expr) (r' : Reading) : Prop :=
  e' = e.strict ∧ Tracks verbose region r r'

/-- The items that were read, and these with `\Z` in place of `$`. -/
def Items (verbose : Bool) (items : List Expr) (s : Reading) (items' : List Expr) (s' : Reading) : Prop :=
  items' = Expr.strictAll items ∧ Tracks verbose .outside s s'

/-- The modes that are turned on, with the token behind them: they do not make a pattern verbose
    that is not taken for one. -/
def TurnedOn (verbose : Bool) (region : Region) (p : Flags × Token) (s : Reading) (p' : Flags × Token) (s' : Reading) : Prop :=
  p' = p ∧ Tracks verbose region s s' ∧ (p.1.verbose → verbose)

/-- What modes come to: those of a group do not make it verbose. -/
def Modes (verbose : Bool) (region : Region) (modes : Option (Flags × Flags)) (s : Reading) (modes' : Option (Flags × Flags))
    (s' : Reading) : Prop :=
  modes' = modes ∧ Tracks verbose region s s' ∧ ∀ on off, modes = some (on, off) → on.verbose → verbose

namespace Tracks
variable {verbose : Bool} {region : Region} {r r' : Reading}

/-! ## Groups -/

theorem groupCount (h : Tracks verbose region r r') : r'.groupCount = r.groupCount := by
  rw [Reading.groupCount, Reading.groupCount, h.groups]

theorem closedWidth? (h : Tracks verbose region r r') : r'.closedWidth? = r.closedWidth? := by
  funext group
  rw [Reading.closedWidth?, Reading.closedWidth?, h.groups]

theorem widths (h : Tracks verbose region r r') : r'.widths = r.widths := by
  funext group
  rw [Reading.widths, Reading.widths, h.closedWidth?]

theorem named? (h : Tracks verbose region r r') : r'.named? = r.named? := by
  funext name
  rw [Reading.named?, Reading.named?, h.names]

theorem openGroup (h : Tracks verbose region r r') (name : Option (List Char)) :
    Mirrors (Together verbose region) (Pattern.openGroup name r) (Pattern.openGroup name r') := by
  refine .state ?_
  rw [h.groupCount]
  cases name with
  | none => exact .update (.value ⟨rfl, { h with groups := by rw [h.groups] }⟩)
  | some n =>
    simp only [h.named?]
    cases r.named? n with
    | some earlier => exact .refusal
    | none => exact .update (.value ⟨rfl, { h with groups := by rw [h.groups], names := by rw [h.names] }⟩)

theorem closeGroup (h : Tracks verbose region r r') (group : Nat) (width : Width) :
    Mirrors (Together verbose region) (Pattern.closeGroup group width r) (Pattern.closeGroup group width r') :=
  .done ⟨rfl, { h with groups := congrArg (·.set (group - 1) (some width)) h.groups }⟩

theorem checkLookBehind (h : Tracks verbose region r r') (group : Nat) :
    Mirrors (Together verbose region) (Pattern.checkLookBehind group r) (Pattern.checkLookBehind group r') := by
  refine .state ?_
  rw [h.behind, h.closedWidth?]
  cases r.behind with
  | none => exact .value ⟨rfl, h⟩
  | some first =>
    exact .ite Iff.rfl (fun _ => .refusal) fun _ => .ite Iff.rfl (fun _ => .refusal) fun _ => .value ⟨rfl, h⟩

theorem groupReference (h : Tracks verbose region r r') (group written : Nat) :
    Mirrors (Stricter verbose region) (Pattern.groupReference group written r)
      (Pattern.groupReference group written r') := by
  refine .state (.ite (by rw [h.groupCount]) (fun _ => ?_) fun _ => .refusal)
  refine .ite (by rw [h.closedWidth?]) (fun _ => .refusal) fun _ => ?_
  exact (h.checkLookBehind group).bind fun _ _ _ _ hs => .value ⟨rfl, hs.2⟩

theorem checkName {name name' : List Char} (h : Names verbose region name r name' r') :
    Mirrors (fun _ s _ s' => name' = name ∧ Tracks verbose region s s') (Pattern.checkName name r)
      (Pattern.checkName name' r') := by
  obtain ⟨j, h, hsame⟩ := h
  by_cases hname : Text.isIdentifier name
  · obtain ⟨rfl, rfl⟩ := hsame (isNeutral_of_isIdentifier hname)
    exact .ite Iff.rfl (fun _ => .value ⟨rfl, h⟩) fun _ => .refusal
  · rw [Pattern.checkName, if_neg hname]
    exact .refusal

theorem readNamedReference (h : Tracks verbose region r r') :
    Mirrors (Stricter verbose region) (Pattern.readNamedReference r) (Pattern.readNamedReference r') := by
  refine (h.takeName (by decide)).bind fun name s name' s' hnames => ?_
  refine (checkName hnames).bind ?_
  rintro _ s _ s' ⟨rfl, hs⟩
  refine .state ?_
  rw [hs.named?]
  cases s.named? name' with
  | none => exact .refusal
  | some group =>
    refine .ite (by rw [hs.closedWidth?]) (fun _ => .refusal) fun _ => ?_
    exact (hs.checkLookBehind group).bind fun _ _ _ _ hu => .value ⟨rfl, hu.2⟩

/-- The groups asked for are the same, though not the places where they are. -/
theorem ask (h : Tracks verbose region r r') (group place place' : Nat) :
    Tracks verbose region
      (if r.asked.any (·.1 == group) then r else { r with asked := r.asked ++ [(group, place)] })
      (if r'.asked.any (·.1 == group) then r' else { r' with asked := r'.asked ++ [(group, place')] }) := by
  have hany : r'.asked.any (·.1 == group) = r.asked.any (·.1 == group) := by
    have hmap : ∀ l : List (Nat × Nat), l.any (·.1 == group) = (l.map (·.1)).any (· == group) := fun l => by
      rw [List.any_map]; rfl
    rw [hmap, hmap, h.asked]
  rw [hany]
  split
  · exact h
  · exact { h with asked := by rw [List.map_append, List.map_append, h.asked]; rfl }

theorem readCondition (h : Tracks verbose region r r') :
    Mirrors (Together verbose region) (Pattern.readCondition r) (Pattern.readCondition r') := by
  refine (h.takeName (by decide)).bind ?_
  rintro name s name' s' ⟨j, hs, hsame⟩
  by_cases hneutral : ∀ c ∈ name, isNeutral c
  · obtain ⟨rfl, rfl⟩ := hsame hneutral
    refine .ite Iff.rfl (fun _ => .state ?_) fun _ => ?_
    · rw [hs.named?]
      cases s.named? name' with
      | none => exact .refusal
      | some group => exact (hs.checkLookBehind group).bind fun _ _ _ _ hu => .value ⟨rfl, hu.2⟩
    · rcases integer? name' with _ | group | _
      · exact .refusal
      · refine .ite Iff.rfl (fun _ => .refusal) fun _ => .ite Iff.rfl (fun _ => .refusal) fun _ => .update ?_
        exact ((hs.ask group _ _).checkLookBehind group).bind fun _ _ _ _ hu => .value ⟨rfl, hu.2⟩
      · exact .refusal
  · have hname : ¬Text.isIdentifier name := fun hname => hneutral (isNeutral_of_isIdentifier hname)
    have hnumber : integer? name = none := by
      by_contra hsome
      obtain ⟨i, hi⟩ := Option.ne_none_iff_exists'.1 hsome
      exact hneutral (isNeutral_of_integer? hi)
    simp only [if_neg hname, hnumber]
    exact .refusal

/-! ## Escapes -/

theorem readCode? [CharacterNames] (h : Tracks verbose region r r') (c : Char) :
    Mirrors (Together verbose region) (Pattern.readCode? c r) (Pattern.readCode? c r') := by
  unfold Pattern.readCode?
  split
  case h_4 =>
    refine (h.takeChar (by decide)).bind ?_
    rintro braced s _ s' ⟨rfl, hs⟩
    refine .ite Iff.rfl (fun _ => ?_) fun _ => .refusal
    refine (hs.takeName (by decide)).bind ?_
    rintro name u name' u' ⟨j, hu, hsame⟩
    cases hcode : namedCode? name with
    | none => exact .refusal
    | some code =>
      obtain ⟨rfl, rfl⟩ := hsame (isNeutral_of_namedCode? hcode)
      rw [hcode]
      exact .value ⟨rfl, hu⟩
  case h_5 => exact .value ⟨rfl, h⟩
  all_goals
    refine .bind (Q := Together verbose region) ?_ fun _ _ _ _ hu => .value ⟨by rw [hu.1], hu.2⟩
    refine (h.takeUpTo (fun _ => isNeutral_of rfl rfl rfl) (Or.inl rfl)).bind ?_
    rintro _ s digits s' ⟨rfl, hs⟩
    exact .ite Iff.rfl (fun _ => .refusal) fun _ => .ite Iff.rfl (fun _ => .refusal) fun _ => .value ⟨rfl, hs⟩

theorem octalCode (h : Tracks verbose region r r') (c : Char) (digits : List Char) :
    Mirrors (Together verbose region) (Pattern.octalCode c digits r) (Pattern.octalCode c digits r') :=
  .ite Iff.rfl (fun _ => .refusal) fun _ => .value ⟨rfl, h⟩

theorem readMemberEscape [CharacterNames] (h : Tracks verbose region r r') (c : Char) :
    Mirrors (Together verbose region) (Pattern.readMemberEscape c r) (Pattern.readMemberEscape c r') := by
  unfold Pattern.readMemberEscape
  rcases controlCode? c with _ | code
  · rcases category? c with _ | m
    · refine (h.readCode? c).bind ?_
      rintro _ s code s' ⟨rfl, hs⟩
      cases code with
      | some code => exact .value ⟨rfl, hs⟩
      | none =>
        refine .ite Iff.rfl (fun _ => ?_) fun _ => ?_
        · refine (hs.takeUpTo (fun _ => isNeutral_of rfl rfl rfl) (Or.inl rfl)).bind ?_
          rintro _ u digits u' ⟨rfl, hu⟩
          exact (hu.octalCode c digits).bind fun _ _ _ _ hv => .value ⟨by rw [hv.1], hv.2⟩
        · exact .ite Iff.rfl (fun _ => .refusal) fun _ => .value ⟨rfl, hs⟩
    · exact .value ⟨rfl, h⟩
  · exact .value ⟨rfl, h⟩

theorem readDigitEscape [CharacterNames] (h : Tracks verbose region r r') (c : Char) :
    Mirrors (Stricter verbose region) (Pattern.readDigitEscape c r) (Pattern.readDigitEscape c r') := by
  unfold Pattern.readDigitEscape
  refine .state ?_
  rcases h.front_cases with heq | ⟨hdollar, hend⟩
  · rw [heq]
    rcases hfront : front r with _ | d | _
    · exact h.groupReference _ _
    · refine .ite Iff.rfl (fun hd => ?_) fun _ => h.groupReference _ _
      refine (h.take_neutral (isNeutral_of rfl rfl rfl hd) hfront).bind ?_
      rintro _ s _ s' ⟨_, _, _, hs⟩
      refine .state ?_
      rcases hs.front_cases with heq | ⟨hdollar, hend⟩
      · rw [heq]
        rcases hthird : front s with _ | e | _
        · exact hs.groupReference _ _
        · by_cases he : isOctalDigit c && isOctalDigit d && isOctalDigit e
          · have he' : isOctalDigit e := (Bool.and_eq_true_iff.1 he).2
            simp only [if_pos he]
            refine (hs.take_neutral (isNeutral_of rfl rfl rfl he') hthird).bind ?_
            rintro _ u _ u' ⟨_, _, _, hu⟩
            exact (hu.octalCode c [d, e]).bind fun _ _ _ _ hv => .value ⟨by rw [hv.1, Expr.strict], hv.2⟩
          · simp only [if_neg he]
            exact hs.groupReference _ _
        · exact hs.groupReference _ _
      · have he : ¬(isOctalDigit c && isOctalDigit d && isOctalDigit '$') := by simp [isOctalDigit]
        simp only [hdollar, hend, if_neg he]
        exact hs.groupReference _ _
    · exact h.groupReference _ _
  · rw [hdollar, hend]
    exact h.groupReference _ _

theorem place?_strict {c : Char} {p : Place} (h : place? c = some p) : p.strict = p := by
  unfold place? at h
  split at h <;> cases h <;> rfl

theorem readEscape [CharacterNames] (h : Tracks verbose region r r') (c : Char) :
    Mirrors (Stricter verbose region) (Pattern.readEscape c r) (Pattern.readEscape c r') := by
  unfold Pattern.readEscape
  rcases hplace : place? c with _ | p
  · rcases category? c with _ | m
    · rcases controlCode? c with _ | code
      · refine (h.readCode? c).bind ?_
        rintro _ s code s' ⟨rfl, hs⟩
        cases code with
        | some code => exact .value ⟨rfl, hs⟩
        | none =>
          refine .ite Iff.rfl (fun _ => ?_) fun _ => .ite Iff.rfl (fun _ => hs.readDigitEscape c) fun _ => ?_
          · exact (hs.takeUpTo (fun _ => isNeutral_of rfl rfl rfl) (Or.inl rfl)).bind fun _ _ _ _ hu =>
              .value ⟨by rw [hu.1, Expr.strict], hu.2⟩
          · exact .ite Iff.rfl (fun _ => .refusal) fun _ => .value ⟨rfl, hs⟩
      · exact .value ⟨rfl, h⟩
    · exact .value ⟨rfl, h⟩
  · exact .value ⟨by rw [Expr.strict, place?_strict hplace], h⟩

/-! ## Sets -/

theorem readMember [CharacterNames] (h : Tracks verbose region r r') (t : Token) :
    Mirrors (Together verbose region) (Pattern.readMember t r) (Pattern.readMember t r') := by
  cases t with
  | plain c => exact .value ⟨rfl, h⟩
  | escaped c => exact h.readMemberEscape c

/-- A set goes on behind a token that is not its end, also where the pass takes it to be over. -/
theorem inSet {t : Token} (h : Tracks verbose (t.leaves region) r r') (hregion : region ≠ .outside)
    (hclose : t = .plain ']' → isCalm r.chars) : ∃ region, region ≠ .outside ∧ Tracks verbose region r r' := by
  by_cases hend : t = .plain ']'
  · rw [hend] at h
    exact ⟨.member, by decide, { h with members := fun _ => hclose hend }⟩
  · refine ⟨t.leaves region, ?_, h⟩
    rw [Token.leaves, if_neg hend]
    split
    · decide
    · exact hregion

theorem anchored_inSet {t : Token} (ht : t.Proper) {cs : List Char} (hregion : region ≠ .outside)
    (hmembers : region = .member → isCalm (t.chars ++ cs)) : t.anchored region = t := by
  cases region with
  | outside => exact absurd rfl hregion
  | inside => exact Token.anchored_inside t
  | member => exact Token.anchored_eq_self (isCalm_token ht (hmembers rfl)).1

/-- A set ends where the pass is outside of sets. A closing bracket that comes first is taken for
    the end, but leaves the members what they are. -/
theorem readMembers [CharacterNames] {start start' n m : Nat} (hm : n ≤ m) {read : List Member} (hregion : region ≠ .outside)
    (hfirst : read = [] → ∀ left, r.chars = ']' :: left → isCalm left) (h : Tracks verbose region r r') :
    Mirrors (Together verbose .outside) (Pattern.readMembers start n read r) (Pattern.readMembers start' m read r') := by
  induction n generalizing m read region r r' with
  | zero => exact .refusalAt
  | succ n ih =>
    obtain ⟨m, rfl⟩ : ∃ k, m = k + 1 := ⟨m - 1, by omega⟩
    rw [Pattern.readMembers, Pattern.readMembers]
    refine h.take.bind fun o s o' s' htakes => ?_
    cases htakes with
    | nothing _ _ => exact .refusalAt
    | @token this s s' hthis hr hs =>
      rw [anchored_inSet hthis hregion (hr ▸ h.members)]
      refine .ite Iff.rfl (fun hend => ?_) fun hend => ?_
      · simp only [Bool.and_eq_true, decide_eq_true_eq] at hend
        rw [hend.1] at hs
        exact .value ⟨rfl, hs⟩
      · have hclose : this = .plain ']' → isCalm s.chars := by
          rintro rfl
          cases read with
          | nil => exact hfirst rfl _ hr
          | cons m read => exact absurd rfl hend
        obtain ⟨region, hregion, hs⟩ := hs.inSet hregion hclose
        refine (hs.readMember this).bind ?_
        rintro _ u first u' ⟨rfl, hu⟩
        refine (hu.takeChar (by decide)).bind ?_
        rintro _ v dash v' ⟨rfl, hv⟩
        refine .ite Iff.rfl (fun _ => ?_) fun _ => ih (by omega) hregion (fun hnil => by simp at hnil) hv
        refine hv.take.bind fun o w o' w' htakes => ?_
        cases htakes with
        | nothing _ _ => exact .refusalAt
        | @token that w w' hthat hw hw' =>
          rw [anchored_inSet hthat hregion (hw ▸ hv.members)]
          refine .ite Iff.rfl (fun hend => ?_) fun hend => ?_
          · rw [hend] at hw'
            exact .value ⟨rfl, hw'⟩
          · obtain ⟨region, hregion, hw⟩ := hw'.inSet hregion fun hclose => absurd hclose hend
            refine (hw.readMember that).bind ?_
            rintro _ x last x' ⟨rfl, hx⟩
            cases first <;> cases last <;> try exact .refusal
            exact .ite Iff.rfl (fun _ => .refusal) fun _ => ih (by omega) hregion (fun hnil => by simp at hnil) hx

theorem readSet [CharacterNames] (h : Tracks verbose .inside r r') (hset : harmless verbose ('[' :: r.chars)) :
    Mirrors (Stricter verbose .outside) (Pattern.readSet r) (Pattern.readSet r') := by
  refine .state ((h.takeChar_cases (by decide)).bind ?_)
  rintro _ s negated s' ⟨rfl, hs, hr⟩
  refine .state ?_
  have hfirst : ∀ left, s.chars = ']' :: left → isCalm left := by
    intro left hleft
    rcases hr with ⟨-, hr⟩ | ⟨-, hr, -⟩
    · simpa [hr, hleft, harmless] using hset
    · simpa [← hr, hleft, harmless] using hset
  refine (hs.readMembers (Nat.succ_le_succ hs.length_le) (by decide) fun _ => hfirst).bind ?_
  rintro _ _ _ _ ⟨rfl, hu⟩
  exact .value ⟨by rw [Expr.strict], hu⟩

/-! ## Repetition -/

theorem repeatCount? (h : Tracks verbose region r r') (digits : List Char) :
    Mirrors (Together verbose region) (Pattern.repeatCount? digits r) (Pattern.repeatCount? digits r') :=
  .ite Iff.rfl (fun _ => .value ⟨rfl, h⟩) fun _ => .ite Iff.rfl (fun _ => .fault) fun _ =>
    .ite Iff.rfl (fun _ => .fault) fun _ => .value ⟨rfl, h⟩

theorem readBounds (h : Tracks verbose region r r') :
    Mirrors (Together verbose region) (Pattern.readBounds r) (Pattern.readBounds r') := by
  refine .state (.ite (h.front_neutral_iff (by decide)) (fun _ => .value ⟨rfl, h⟩) fun _ => ?_)
  have hdigit : ∀ c : Char, c.isDigit → isNeutral c := fun _ => isNeutral_of rfl rfl rfl
  refine (h.takeAll hdigit).bind ?_
  rintro _ s low s' ⟨rfl, hs⟩
  refine (hs.takeChar (by decide)).bind ?_
  rintro _ u _ u' ⟨rfl, hu⟩
  refine .ite_bind Iff.rfl (fun _ => hu.takeAll hdigit) (fun _ => .value ⟨rfl, hu⟩) ?_
  rintro _ v high v' ⟨rfl, hv⟩
  refine (hv.takeChar (by decide)).bind ?_
  rintro _ w _ w' ⟨rfl, hw⟩
  refine .ite Iff.rfl (fun _ => ?_) fun _ => ?_
  · refine (hw.repeatCount? low).bind ?_
    rintro _ x least x' ⟨rfl, hx⟩
    refine (hx.repeatCount? high).bind ?_
    rintro _ y greatest y' ⟨rfl, hy⟩
    cases greatest with
    | none => exact .value ⟨rfl, hy⟩
    | some greatest => exact .ite Iff.rfl (fun _ => .refusalAt) fun _ => .value ⟨rfl, hy⟩
  · exact .done ⟨rfl, h⟩

theorem readMode (h : Tracks verbose region r r') :
    Mirrors (Together verbose region) (Pattern.readMode r) (Pattern.readMode r') := by
  refine (h.takeChar (by decide)).bind ?_
  rintro _ s _ s' ⟨rfl, hs⟩
  refine .ite Iff.rfl (fun _ => .value ⟨rfl, hs⟩) fun _ => ?_
  exact (hs.takeChar (by decide)).bind fun _ _ _ _ hu =>
    .ite (by rw [hu.1]) (fun _ => .value ⟨rfl, hu.2⟩) fun _ => .value ⟨rfl, hu.2⟩

/-- What may be repeated does not depend on what `$` means: no place may. -/
theorem repeatLast (h : Tracks verbose .outside r r') {start start' least : Nat} {greatest : Option Nat} (read : List Expr) :
    Mirrors (Items verbose) (Pattern.repeatLast start least greatest read r)
      (Pattern.repeatLast start' least greatest (Expr.strictAll read) r') := by
  cases read with
  | nil => exact .refusalAt (r := r)
  | cons item before =>
    cases item
    case «at» => exact .refusalAt (r := r)
    case repeated => exact .refusalAt (r := r)
    all_goals exact h.readMode.bind fun _ _ _ _ hs => .value ⟨by rw [hs.1]; rfl, hs.2⟩

/-! ## Parentheses and comments -/

theorem closeParenthesis (h : Tracks verbose region r r') (start start' : Nat) :
    Mirrors (Together verbose region) (Pattern.closeParenthesis start r) (Pattern.closeParenthesis start' r') :=
  (h.takeChar (by decide)).bind fun _ _ _ _ hs =>
    .ite (by rw [hs.1]) (fun _ => .value ⟨rfl, hs.2⟩) fun _ => .refusalAt

/-- A comment at whose end the pass is outside of sets leaves it there. -/
theorem skipComment {start start' n m : Nat} (hm : n ≤ m) (houtside : outsideAt ')' region r.chars)
    (h : Tracks verbose region r r') :
    Mirrors (Together verbose .outside) (Pattern.skipComment start n r) (Pattern.skipComment start' m r') := by
  induction n generalizing m region r r' with
  | zero => exact .refusalAt
  | succ n ih =>
    obtain ⟨m, rfl⟩ : ∃ k, m = k + 1 := ⟨m - 1, by omega⟩
    rw [Pattern.skipComment, Pattern.skipComment]
    refine h.take.bind fun o s o' s' htakes => ?_
    cases htakes with
    | nothing _ _ => exact .refusalAt
    | @token t s s' ht hr hs =>
      rw [hr] at houtside
      refine .ite (Token.anchored_eq_plain_iff (by decide)) (fun hend => ?_) fun hend => ?_
      · subst hend
        cases outsideAt_stop ht houtside
        exact .value ⟨rfl, hs⟩
      · exact ih (by omega) (outsideAt_token ht houtside hend) hs

/-- So does a comment up to the end of its line. -/
theorem skipLine {n m : Nat} (hn : r.chars.length ≤ n) (hm : n ≤ m) (houtside : outsideAt '\n' region r.chars)
    (h : Tracks verbose region r r') :
    Mirrors (Together verbose .outside) (Pattern.skipLine n r) (Pattern.skipLine m r') := by
  have hempty : ∀ {s s' : Reading} {region : Region}, s.chars = [] → Tracks verbose region s s' →
      Tracks verbose .outside s s' := by
    intro s s' region hs htracks
    refine { htracks with chars := ?_, ahead := ?_, members := nofun }
    · rw [htracks.chars, hs, anchorFrom_nil, anchorFrom_nil]
    · rw [hs]; rfl
  induction n generalizing m region r r' with
  | zero =>
    have hr : r.chars = [] := List.length_eq_zero_iff.1 (Nat.le_zero.1 hn)
    cases m with
    | zero => exact .value ⟨rfl, hempty hr h⟩
    | succ m =>
      have hr' : r'.chars = [] := by rw [h.chars, hr, anchorFrom_nil]
      rintro _ _ ⟨⟩
      refine ⟨(), r', ?_, rfl, hempty hr h⟩
      simp only [Pattern.skipLine, bind, StateT.bind, Reading.take_nil hr', Except.bind]
      rfl
  | succ n ih =>
    obtain ⟨m, rfl⟩ : ∃ k, m = k + 1 := ⟨m - 1, by omega⟩
    rw [Pattern.skipLine, Pattern.skipLine]
    refine h.take.bind fun o s o' s' htakes => ?_
    cases htakes with
    | nothing hr hs => exact .value ⟨rfl, hempty hr hs⟩
    | @token t s s' ht hr hs =>
      rw [hr] at houtside hn
      refine .ite (Token.anchored_eq_plain_iff (by decide)) (fun hend => ?_) fun hend => ?_
      · subst hend
        cases outsideAt_stop ht houtside
        exact .value ⟨rfl, hs⟩
      · have hlength : 0 < t.chars.length := by cases t <;> exact Nat.succ_pos _
        rw [List.length_append] at hn
        exact ih (by omega) (by omega) (outsideAt_token ht houtside hend) hs

/-! ## Modes -/

theorem isModeLetter_of {t : Token} (h : t = .plain 'L' ∨ (flag? t).isSome) : ∃ c, t = .plain c ∧ isModeLetter c := by
  rcases t with c | c
  · rcases h with heq | hflag
    · exact ⟨c, rfl, by cases heq; rfl⟩
    · exact ⟨c, rfl, by rw [isModeLetter, hflag, Bool.or_true]⟩
  · rcases h with heq | hflag
    · cases heq
    · cases hflag

/-- A mode letter leaves the pass where it is. -/
theorem leaves_of_mode {t : Token} (h : t = .plain 'L' ∨ (flag? t).isSome) : t.leaves region = region := by
  obtain ⟨c, rfl, hc⟩ := isModeLetter_of h
  exact Token.leaves_neutral region (isNeutral_of rfl rfl rfl hc)

theorem eq_x_of_verbose {c : Char} (h : ((flag? (.plain c)).getD Flags.none).verbose) : c = 'x' := by
  unfold flag? at h
  split at h <;> simp_all [Flags.none]

theorem readFlagsOn (h : Tracks verbose region r r') {letter : Char} (hletter : isModeLetter letter) {on : Flags}
    (hmodes : verbose ∨ 'x' ∉ (letter :: r.chars).takeWhile isModeLetter) (hon : on.verbose → verbose) {n m : Nat}
    (hm : n ≤ m) :
    Mirrors (TurnedOn verbose region) (Pattern.readFlagsOn n (.plain letter) on r)
      (Pattern.readFlagsOn m (.plain letter) on r') := by
  induction n generalizing m letter on r r' with
  | zero => exact .refusal
  | succ n ih =>
    obtain ⟨m, rfl⟩ : ∃ k, m = k + 1 := ⟨m - 1, by omega⟩
    rw [Pattern.readFlagsOn, Pattern.readFlagsOn]
    have hunion : (on.union ((flag? (.plain letter)).getD Flags.none)).verbose → verbose := by
      simp only [Flags.union, Bool.or_eq_true]
      rintro (hbefore | hone)
      · exact hon hbefore
      · rcases hmodes with htrue | hx
        · exact htrue
        · rw [List.takeWhile_cons_of_pos hletter, eq_x_of_verbose hone] at hx
          exact absurd (List.mem_cons_self ..) hx
    refine .ite Iff.rfl (fun _ => .refusal) fun _ => .ite Iff.rfl (fun _ => .refusal) fun _ => ?_
    refine h.take_refusing (fun _ _ => .refusal) (fun _ _ => .refusal) fun t s s' hr hs => ?_
    refine .ite Iff.rfl (fun hend => ?_) fun _ => .ite Iff.rfl (fun hflag => ?_) fun _ => .refusal
    · refine .value ⟨rfl, ?_, hunion⟩
      rcases hend with rfl | rfl | rfl <;> simpa [Token.leaves] using hs
    · rw [leaves_of_mode hflag] at hs
      obtain ⟨c, rfl, hc⟩ := isModeLetter_of hflag
      refine ih hs hc (hmodes.imp_right fun hx hmem => hx ?_) hunion (by omega)
      rw [List.takeWhile_cons_of_pos hletter, hr]
      exact List.mem_cons_of_mem _ hmem

theorem readFlagsOff (h : Tracks verbose region r r') (letter : Token) (off : Flags) {n m : Nat} (hm : n ≤ m) :
    Mirrors (Together verbose region) (Pattern.readFlagsOff n letter off r) (Pattern.readFlagsOff m letter off r') := by
  induction n generalizing m letter off r r' with
  | zero => exact .refusal
  | succ n ih =>
    obtain ⟨m, rfl⟩ : ∃ k, m = k + 1 := ⟨m - 1, by omega⟩
    rw [Pattern.readFlagsOff, Pattern.readFlagsOff]
    refine .ite Iff.rfl (fun _ => .refusal) fun _ => ?_
    refine h.take_refusing (fun _ _ => .refusal) (fun _ _ => .refusal) fun t s s' _ hs => ?_
    refine .ite Iff.rfl (fun hend => ?_) fun _ => .ite Iff.rfl (fun hflag => ?_) fun _ => .refusal
    · subst hend
      exact .value ⟨rfl, by simpa [Token.leaves] using hs⟩
    · rw [leaves_of_mode hflag] at hs
      exact ih hs _ _ (by omega)

theorem readFlags (h : Tracks verbose region r r') {first : Token}
    (hfirst : first = .plain '-' ∨ first = .plain 'L' ∨ (flag? first).isSome)
    (hmodes : verbose ∨ 'x' ∉ (first.chars ++ r.chars).takeWhile isModeLetter) :
    Mirrors (Modes verbose region) (Pattern.readFlags first r) (Pattern.readFlags first r') := by
  unfold Pattern.readFlags
  have hlength := Nat.succ_le_succ h.length_le
  refine .state ?_
  refine .ite_bind (Q := TurnedOn verbose region) Iff.rfl (fun _ => .value ⟨rfl, h, fun hon => by cases hon⟩) (fun hdash => ?_) ?_
  · obtain ⟨c, rfl, hc⟩ := isModeLetter_of (hfirst.resolve_left hdash)
    exact h.readFlagsOn hc hmodes (fun hon => by cases hon) hlength
  · rintro _ s ⟨on, ending⟩ s' ⟨rfl, hs, hon⟩
    have hoff : ∀ off u off' u', Together verbose region off u off' u' → Mirrors (Modes verbose region)
        ((if off.template then refuse .globalFlagOff 1
          else if on.without off != on then refuse .flagOnAndOff 1 else return some (on, off) : Reader _) u)
        ((if off'.template then refuse .globalFlagOff 1
          else if on.without off' != on then refuse .flagOnAndOff 1 else return some (on, off') : Reader _) u') := by
      rintro off u _ u' ⟨rfl, hu⟩
      refine .ite Iff.rfl (fun _ => .refusal) fun _ => .ite Iff.rfl (fun _ => .refusal) fun _ => .value ⟨rfl, hu, ?_⟩
      rintro _ _ ⟨⟩
      exact hon
    refine .ite Iff.rfl (fun _ => .update (.value ⟨rfl, ?_, fun _ _ hnone => by cases hnone⟩)) fun _ =>
      .ite Iff.rfl (fun _ => .refusal) fun _ => ?_
    · refine { hs with modes := fun hverbose => ?_, flags := congrArg (·.union on) hs.flags }
      exact (Bool.or_eq_true_iff.1 hverbose).elim hs.modes hon
    refine .ite Iff.rfl (fun _ => ?_) fun _ => .bind (.value ⟨rfl, hs⟩) hoff
    refine hs.take_refusing (fun _ _ => .refusal_bind) (fun _ _ => .refusal_bind) fun t u u' _ hu => ?_
    refine .ite Iff.rfl (fun hflag => ?_) fun _ => .refusal_bind
    rw [leaves_of_mode hflag] at hu
    exact (hu.readFlagsOff _ _ hlength).bind hoff

end Tracks

end SchemaGuard.Pattern
