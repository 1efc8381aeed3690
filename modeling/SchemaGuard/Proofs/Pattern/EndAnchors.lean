/-
  SchemaGuard — what anchoring does to the reading of a pattern.
-/
import Mathlib
import SchemaGuard.Compile
import SchemaGuard.Proofs.Pattern.Readers
import SchemaGuard.Proofs.Validator.Violations

namespace SchemaGuard

namespace Pattern

/-! ## Reading items -/

/-- A piece with `\Z` in place of `$`. -/
def Piece.strict : Piece → Piece
  | .item e => .item e.strict
  | .comment => .comment
  | .modes => .modes

/-- A piece with `\Z` in place of `$`, and readings that go on together. -/
def StricterPiece (verbose : Bool) (p : Piece) (s : Reading) (p' : Piece) (s' : Reading) : Prop :=
  p' = p.strict ∧ Tracks verbose .outside s s'

/-- With a number of rounds, or more of them, an anchored pattern is read as the pattern is, with
    `\Z` in place of `$`. -/
structure ReadsStrictly [CharacterNames] (verbose : Bool) (n : Nat) : Prop where
  alternatives : ∀ {m : Nat} {inner nested : Bool} {r r' : Reading}, n ≤ m → (inner → verbose) →
    Tracks verbose .outside r r' →
    Mirrors (Stricter verbose .outside) (readAlternatives n inner nested r) (readAlternatives m inner nested r')
  branches : ∀ {m : Nat} {inner nested first : Bool} {r r' : Reading}, n ≤ m → (inner → verbose) →
    Tracks verbose .outside r r' →
    Mirrors (Items verbose) (readBranches n inner nested first r) (readBranches m inner nested first r')
  items : ∀ {m : Nat} {inner atStart : Bool} {r r' : Reading} (read : List Expr), n ≤ m → (inner → verbose) →
    Tracks verbose .outside r r' →
    Mirrors (Items verbose) (readItems n inner atStart read r) (readItems m inner atStart (Expr.strictAll read) r')
  group : ∀ {m : Nat} {inner : Bool} {start start' : Nat} {r r' : Reading}, n ≤ m → (inner → verbose) →
    Tracks verbose .outside r r' → harmless verbose ('(' :: r.chars) →
    Mirrors (StricterPiece verbose) (readGroup n inner start r) (readGroup m inner start' r')

namespace ReadsStrictly
variable [CharacterNames] {verbose : Bool} {n m : Nat} {inner nested first atStart : Bool} {start start' : Nat}
  {r r' : Reading}

theorem succ_alternatives (ih : ReadsStrictly verbose n) (hm : n + 1 ≤ m) (hinner : inner → verbose)
    (h : Tracks verbose .outside r r') :
    Mirrors (Stricter verbose .outside) (readAlternatives (n + 1) inner nested r) (readAlternatives m inner nested r') := by
  obtain ⟨m, rfl⟩ : ∃ k, m = k + 1 := ⟨m - 1, by omega⟩
  rw [readAlternatives, readAlternatives]
  refine (ih.branches (by omega) hinner h).bind ?_
  rintro branches s _ s' ⟨rfl, hs⟩
  refine .value ⟨?_, hs⟩
  rcases branches with _ | ⟨e, _ | ⟨d, branches⟩⟩ <;> rfl

theorem succ_branches (ih : ReadsStrictly verbose n) (hm : n + 1 ≤ m) (hinner : inner → verbose)
    (h : Tracks verbose .outside r r') :
    Mirrors (Items verbose) (readBranches (n + 1) inner nested first r) (readBranches m inner nested first r') := by
  obtain ⟨m, rfl⟩ : ∃ k, m = k + 1 := ⟨m - 1, by omega⟩
  rw [readBranches, readBranches]
  refine (ih.items [] (by omega) hinner h).bind ?_
  rintro branch s _ s' ⟨rfl, hs⟩
  refine (hs.takeChar (by decide)).bind ?_
  rintro _ u _ u' ⟨rfl, hu⟩
  refine .ite Iff.rfl (fun _ => .state ?_) fun _ => ?_
  · have hnext : (if nested then inner else u.flags.verbose) = true → verbose := by
      cases nested with
      | true => exact hinner
      | false => exact hu.modes
    rw [hu.flags]
    exact (ih.branches (by omega) hnext hu).bind fun _ _ _ _ hv => .value ⟨by rw [hv.1]; rfl, hv.2⟩
  · exact .value ⟨rfl, hu⟩

/-- The last item repeated, and the items behind it. -/
theorem repeated (ih : ReadsStrictly verbose n) (read : List Expr) (hm : n ≤ m) (hinner : inner → verbose)
    (h : Tracks verbose .outside r r') {least : Nat} {greatest : Option Nat} :
    Mirrors (Items verbose) ((repeatLast start least greatest read >>= readItems n inner atStart) r)
      ((repeatLast start' least greatest (Expr.strictAll read) >>= readItems m inner atStart) r') := by
  refine (h.repeatLast read).bind ?_
  rintro items s _ s' ⟨rfl, hs⟩
  exact ih.items items hm hinner hs

theorem succ_items (ih : ReadsStrictly verbose n) (read : List Expr) (hm : n + 1 ≤ m) (hinner : inner → verbose)
    (h : Tracks verbose .outside r r') :
    Mirrors (Items verbose) (readItems (n + 1) inner atStart read r)
      (readItems m inner atStart (Expr.strictAll read) r') := by
  obtain ⟨m, rfl⟩ : ∃ k, m = k + 1 := ⟨m - 1, by omega⟩
  have hm : n ≤ m := by omega
  have hread : (Expr.strictAll read).reverse = Expr.strictAll read.reverse := by
    rw [Expr.strictAll_eq_map, Expr.strictAll_eq_map, List.map_reverse]
  rw [readItems, readItems]
  refine .state (.ite ?_ (fun _ => .value ⟨hread, h⟩) fun _ => ?_)
  · rcases h.front_cases with heq | ⟨hdollar, hend⟩
    · rw [heq]
    · rw [hdollar, hend]
      exact Iff.rfl
  refine h.take.bind fun o s o' s' htakes => ?_
  cases htakes with
  | nothing _ hs => exact .value ⟨hread, hs⟩
  | @token t s s' ht hr hs =>
    rcases Token.anchored_cases .outside t with heq | ⟨rfl, heq⟩
    · rw [heq]
      rcases t with c | c
      · have hahead := h.ahead
        rw [hr] at hahead
        have hharmless : harmless verbose (c :: s.chars) := harmless_of_inStep hahead
        refine .state (.ite Iff.rfl (fun hblank => ?_) fun _ => .ite Iff.rfl (fun hline => ?_) fun _ => ?_)
        · have hopen : c ≠ '[' := by rintro rfl; cases inner <;> cases hblank
          rw [Token.leaves_outside (by simpa using hopen)] at hs
          exact ih.items read hm hinner hs
        · simp only [Bool.and_eq_true, beq_iff_eq] at hline
          obtain ⟨htrue, rfl⟩ := hline
          simp only [harmless, hinner htrue, Bool.not_true, Bool.false_or] at hharmless
          refine .state ((Tracks.skipLine (Nat.le_refl _) hs.length_le hharmless hs).bind ?_)
          rintro _ _ _ _ ⟨_, hu⟩
          exact ih.items read hm hinner hu
        by_cases hopen : c = '['
        · subst hopen
          refine (Tracks.readSet hs hharmless).bind ?_
          rintro e u _ u' ⟨rfl, hu⟩
          exact ih.items (e :: read) hm hinner hu
        rw [Token.leaves_outside (by simpa using hopen)] at hs
        split
        case h_1 => exact absurd rfl hopen
        case h_2 => exact ih.items (.any :: read) hm hinner hs
        case h_3 => exact ih.items (.at .start :: read) hm hinner hs
        case h_4 => cases heq
        case h_5 => exact ih.repeated read hm hinner hs
        case h_6 => exact ih.repeated read hm hinner hs
        case h_7 => exact ih.repeated read hm hinner hs
        case h_8 =>
          refine hs.readBounds.bind ?_
          rintro _ u bounds u' ⟨rfl, hu⟩
          rcases bounds with _ | ⟨least, greatest⟩
          · exact ih.items (.literal _ :: read) hm hinner hu
          · exact ih.repeated read hm hinner hu
        case h_9 =>
          refine (ih.group hm hinner hs hharmless).bind ?_
          rintro piece u _ u' ⟨rfl, hu⟩
          cases piece with
          | item e => exact ih.items (e :: read) hm hinner hu
          | comment => exact ih.items read hm hinner hu
          | modes =>
            refine .ite (by cases read <;> rfl) (fun _ => .state ?_) fun _ => .refusalAt
            rw [hu.flags]
            exact ih.items read hm hu.modes hu
        case h_10 => exact ih.items (.literal c.toNat :: read) hm hinner hs
      · refine (hs.readEscape c).bind ?_
        rintro e u _ u' ⟨rfl, hu⟩
        exact ih.items (e :: read) hm hinner hu
    · rw [heq]
      cases inner <;> exact ih.items (.at .finish :: read) hm hinner hs

/-- A body up to its closing parenthesis. -/
theorem enclosed (ih : ReadsStrictly verbose n) (hm : n ≤ m) (hinner : inner → verbose)
    (h : Tracks verbose .outside r r') {f : Expr → Piece} (hf : ∀ e, f e.strict = (f e).strict) :
    Mirrors (StricterPiece verbose)
      ((do
        let body ← readAlternatives n inner true
        closeParenthesis start
        return f body : Reader Piece) r)
      ((do
        let body ← readAlternatives m inner true
        closeParenthesis start'
        return f body : Reader Piece) r') := by
  refine (ih.alternatives hm hinner h).bind ?_
  rintro body s _ s' ⟨rfl, hs⟩
  exact (hs.closeParenthesis _ _).bind fun _ _ _ _ hu => .value ⟨hf body, hu.2⟩

/-- A body that is kept under a number. -/
theorem captured (ih : ReadsStrictly verbose n) (hm : n ≤ m) (hinner : inner → verbose)
    (h : Tracks verbose .outside r r') (name : Option (List Char)) :
    Mirrors (StricterPiece verbose)
      ((do
        let group ← openGroup name
        let body ← readAlternatives n inner true
        closeParenthesis start
        closeGroup group (body.width (← get).widths)
        return .item (.capture group body) : Reader Piece) r)
      ((do
        let group ← openGroup name
        let body ← readAlternatives m inner true
        closeParenthesis start'
        closeGroup group (body.width (← get).widths)
        return .item (.capture group body) : Reader Piece) r') := by
  refine (h.openGroup name).bind ?_
  rintro _ s group s' ⟨rfl, hs⟩
  refine (ih.alternatives hm hinner hs).bind ?_
  rintro body u _ u' ⟨rfl, hu⟩
  refine (hu.closeParenthesis _ _).bind ?_
  rintro _ v _ v' ⟨_, hv⟩
  refine .state ?_
  rw [hv.widths, Expr.width_strict]
  exact (hv.closeGroup _ _).bind fun _ _ _ _ hw => .value ⟨rfl, hw.2⟩

/-- The body of a look-behind, inside of which groups may not be referred to that are newer. -/
theorem lookedBehind (ih : ReadsStrictly verbose n) (hm : n ≤ m) (hinner : inner → verbose)
    (h : Tracks verbose .outside r r') (negated : Bool) :
    Mirrors (StricterPiece verbose)
      ((do
        let before := (← get).behind
        modify fun r => { r with behind := some (before.getD r.groupCount) }
        let body ← readAlternatives n inner true
        modify fun r => { r with behind := before }
        closeParenthesis start
        let width := body.width (← get).widths
        return .item (.look (.behind width.least width.greatest) negated body) : Reader Piece) r)
      ((do
        let before := (← get).behind
        modify fun r => { r with behind := some (before.getD r.groupCount) }
        let body ← readAlternatives m inner true
        modify fun r => { r with behind := before }
        closeParenthesis start'
        let width := body.width (← get).widths
        return .item (.look (.behind width.least width.greatest) negated body) : Reader Piece) r') := by
  have hinside : Tracks verbose .outside { r with behind := some (r.behind.getD r.groupCount) }
      { r' with behind := some (r'.behind.getD r'.groupCount) } :=
    { h with behind := by rw [h.behind, h.groupCount] }
  refine .state (.update ((ih.alternatives hm hinner hinside).bind ?_))
  rintro body s _ s' ⟨rfl, hs⟩
  refine .update ?_
  have hu : Tracks verbose .outside { s with behind := r.behind } { s' with behind := r'.behind } :=
    { hs with behind := h.behind }
  refine (hu.closeParenthesis _ _).bind ?_
  rintro _ v _ v' ⟨_, hv⟩
  refine .state ?_
  rw [hv.widths, Expr.width_strict]
  exact .value ⟨rfl, hv⟩

/-- The two branches behind a condition. -/
theorem chosen (ih : ReadsStrictly verbose n) (hm : n ≤ m) (hinner : inner → verbose)
    (h : Tracks verbose .outside r r') (group : Nat) :
    Mirrors (StricterPiece verbose)
      ((do
        let yes ← readItems n inner false []
        let no ←
          if ← takeChar '|' then
            let no ← readItems n inner false []
            if front (← get) = some (.plain '|') then refuse .thirdBranch 0 else pure no
          else pure []
        closeParenthesis start
        return .item (.choose group (.seq yes) (.seq no)) : Reader Piece) r)
      ((do
        let yes ← readItems m inner false []
        let no ←
          if ← takeChar '|' then
            let no ← readItems m inner false []
            if front (← get) = some (.plain '|') then refuse .thirdBranch 0 else pure no
          else pure []
        closeParenthesis start'
        return .item (.choose group (.seq yes) (.seq no)) : Reader Piece) r') := by
  refine (ih.items [] hm hinner h).bind ?_
  rintro yes s _ s' ⟨rfl, hs⟩
  have hclose : ∀ (no : List Expr) {u u' : Reading}, Tracks verbose .outside u u' →
      Mirrors (StricterPiece verbose)
        ((do
          closeParenthesis start
          return .item (.choose group (.seq yes) (.seq no)) : Reader Piece) u)
        ((do
          closeParenthesis start'
          return .item (.choose group (.seq (Expr.strictAll yes)) (.seq (Expr.strictAll no))) : Reader Piece) u') :=
    fun no u u' hu => (hu.closeParenthesis _ _).bind fun _ _ _ _ hv => .value ⟨rfl, hv.2⟩
  refine (hs.takeChar (by decide)).bind ?_
  rintro _ u _ u' ⟨rfl, hu⟩
  refine .ite Iff.rfl (fun _ => ?_) fun _ => hclose [] hu
  refine (ih.items [] hm hinner hu).bind ?_
  rintro no v _ v' ⟨rfl, hv⟩
  refine .state ?_
  exact .ite (hv.front_neutral_iff (by decide)) (fun _ => .refusal_bind) fun _ => hclose no hv

/-- The modes of a group that are not harmless would make it verbose. -/
theorem moded (ih : ReadsStrictly verbose n) (hm : n ≤ m) (hinner : inner → verbose) {t : Token}
    (ht : t = .plain '-' ∨ t = .plain 'L' ∨ (flag? t).isSome) (h : Tracks verbose (t.leaves .outside) r r')
    (hharmless : harmless verbose ('(' :: '?' :: (t.chars ++ r.chars))) :
    Mirrors (StricterPiece verbose)
      ((do
        match ← readFlags t with
        | none => return .modes
        | some (on, off) =>
          let body ← readAlternatives n ((inner || on.verbose) && !off.verbose) true
          closeParenthesis start
          return .item (.modal on off body) : Reader Piece) r)
      ((do
        match ← readFlags t with
        | none => return .modes
        | some (on, off) =>
          let body ← readAlternatives m ((inner || on.verbose) && !off.verbose) true
          closeParenthesis start'
          return .item (.modal on off body) : Reader Piece) r') := by
  have hplain : ∃ c, t = .plain c ∧ isNeutral c ∧ c ≠ '#' := by
    rcases ht with rfl | hletter
    · exact ⟨'-', rfl, rfl, by decide⟩
    · obtain ⟨c, rfl, hc⟩ := Tracks.isModeLetter_of hletter
      exact ⟨c, rfl, isNeutral_of rfl rfl rfl hc, by rintro rfl; cases hc⟩
  obtain ⟨c, rfl, hneutral, hc⟩ := hplain
  rw [Token.leaves_neutral .outside hneutral] at h
  refine (h.readFlags ht (noModes_of_harmless hc hharmless)).bind ?_
  rintro _ s modes s' ⟨rfl, hs, hon⟩
  rcases modes with _ | ⟨on, off⟩
  · exact .value ⟨rfl, hs⟩
  · refine ih.enclosed hm (fun hverbose => ?_) hs fun _ => rfl
    simp only [Bool.and_eq_true, Bool.or_eq_true] at hverbose
    exact hverbose.1.elim hinner (hon on off rfl)

theorem succ_group (ih : ReadsStrictly verbose n) (hm : n + 1 ≤ m) (hinner : inner → verbose)
    (h : Tracks verbose .outside r r') (hharmless : harmless verbose ('(' :: r.chars)) :
    Mirrors (StricterPiece verbose) (readGroup (n + 1) inner start r) (readGroup m inner start' r') := by
  obtain ⟨m, rfl⟩ : ∃ k, m = k + 1 := ⟨m - 1, by omega⟩
  have hm : n ≤ m := by omega
  rw [readGroup, readGroup]
  refine (h.takeChar_cases (by decide)).bind ?_
  rintro _ s question s' ⟨rfl, hs, hr⟩
  refine .ite Iff.rfl (fun htrue => ?_) fun hfalse => ih.captured hm hinner hs none
  refine hs.take_refusing (fun _ _ => .refusal) (fun _ _ => .refusal) fun t u u' ht hu => ?_
  have hopened : r.chars = '?' :: (t.chars ++ u.chars) := by
    rcases hr with ⟨-, hr⟩ | ⟨hfalse, -⟩
    · rw [hr, ht]
    · rw [htrue] at hfalse; cases hfalse
  rw [hopened] at hharmless
  generalize hkind : some t = kind
  split <;> cases hkind
  case h_2 =>
    refine (Tracks.takeChar hu (by decide)).bind ?_
    rintro _ v _ v' ⟨rfl, hv⟩
    refine .ite Iff.rfl (fun _ => ?_) fun _ => ?_
    · refine (hv.takeName (by decide)).bind fun name w name' w' hnames => ?_
      refine (Tracks.checkName hnames).bind ?_
      rintro _ w _ w' ⟨rfl, hw⟩
      exact ih.captured hm hinner hw (some _)
    · refine (hv.takeChar (by decide)).bind ?_
      rintro _ w _ w' ⟨rfl, hw⟩
      refine .ite Iff.rfl (fun _ => ?_) fun _ => ?_
      · exact hw.readNamedReference.bind fun _ _ _ _ hx => .value ⟨by rw [hx.1]; rfl, hx.2⟩
      · refine hw.take.bind fun o x o' x' htakes => ?_
        cases htakes <;> exact .refusal
  case h_3 => exact ih.enclosed hm (fun hverbose => hinner (by simpa [Flags.none] using hverbose)) hu fun _ => rfl
  case h_4 =>
    exact .state ((Tracks.skipComment (Nat.succ_le_succ hu.length_le) hharmless hu).bind
      fun _ _ _ _ hv => .value ⟨rfl, hv.2⟩)
  case h_5 => exact ih.enclosed hm hinner hu fun _ => rfl
  case h_6 => exact ih.enclosed hm hinner hu fun _ => rfl
  case h_7 =>
    have hu : Tracks verbose .outside u u' := hu
    refine hu.take_refusing (fun _ _ => .refusal) (fun _ _ => .refusal) fun t v v' _ hv => ?_
    refine .ite Iff.rfl (fun hbehind => ?_) fun _ => .refusal
    have hv : Tracks verbose .outside v v' := by rcases hbehind with rfl | rfl <;> exact hv
    exact ih.lookedBehind hm hinner hv _
  case h_8 =>
    refine (Tracks.readCondition hu).bind ?_
    rintro _ v group v' ⟨rfl, hv⟩
    exact ih.chosen hm hinner hv group
  case h_9 => exact ih.enclosed hm hinner hu fun _ => rfl
  case h_10 => exact .ite Iff.rfl (fun hmodes => ih.moded hm hinner hmodes hu hharmless) fun _ => .refusal

theorem zero (verbose : Bool) : ReadsStrictly verbose 0 where
  alternatives _ _ _ := .refusal
  branches _ _ _ := .refusal
  items _ _ _ _ := .refusal
  group _ _ _ _ := .refusal

theorem succ (ih : ReadsStrictly verbose n) : ReadsStrictly verbose (n + 1) where
  alternatives := ih.succ_alternatives
  branches := ih.succ_branches
  items := ih.succ_items
  group := ih.succ_group

end ReadsStrictly

theorem readsStrictly [CharacterNames] (verbose : Bool) (n : Nat) : ReadsStrictly verbose n := by
  induction n with
  | zero => exact .zero verbose
  | succ n ih => exact ih.succ

/-! ## Reading patterns -/

section
variable {verbose : Bool} {pattern : List Char}

theorem Tracks.start (hwhole : pattern ≠ ['\\']) (hstep : inStep verbose .plain pattern) :
    Tracks verbose .outside (Reading.start pattern) (Reading.start (anchorEnd pattern)) where
  chars := anchorEnd_eq pattern
  whole := hwhole
  ahead := hstep
  members := nofun
  modes := fun hverbose => by cases hverbose
  flags := rfl
  groups := rfl
  names := rfl
  behind := rfl
  asked := rfl

theorem Tracks.find?_asked {region : Region} {r r' : Reading} (h : Tracks verbose region r r') (p : Nat → Bool)
    (hr : r.asked.find? (fun g => p g.1) = none) : r'.asked.find? (fun g => p g.1) = none := by
  have hmap : ∀ l : List (Nat × Nat), l.find? (fun g => p g.1) = none ↔ ∀ g ∈ l.map (·.1), ¬p g := fun l => by
    simp [List.find?_eq_none]
  rwa [hmap, h.asked, ← hmap]

theorem readWhole_anchorEnd [CharacterNames] (hwhole : pattern ≠ ['\\']) (hstep : inStep verbose .plain pattern) :
    Mirrors (Stricter verbose .outside) (readWhole pattern (Reading.start pattern))
      (readWhole (anchorEnd pattern) (Reading.start (anchorEnd pattern))) := by
  have hstart := Tracks.start hwhole hstep
  have hrounds : 4 * pattern.length + 8 ≤ 4 * (anchorEnd pattern).length + 8 := by
    have hlength := length_le_anchorFrom .outside pattern
    rw [← anchorEnd_eq] at hlength
    omega
  have hbody : Mirrors (Stricter verbose .outside)
      (readAlternatives (4 * pattern.length + 8) false false (Reading.start pattern))
      (readAlternatives (4 * (anchorEnd pattern).length + 8) false false (Reading.start (anchorEnd pattern))) :=
    (readsStrictly verbose _).alternatives hrounds (fun hverbose => by cases hverbose) hstart
  unfold readWhole
  refine hbody.bind ?_
  rintro e r _ r' ⟨rfl, h⟩
  refine .state ?_
  refine .ite (by rw [h.flags]) (fun _ => .fault) fun _ => .ite ?_ (fun _ => .refusal) fun _ => ?_
  · rw [h.front_eq, Option.isSome_map]
  · cases hasked : r.asked.find? fun g => r.groupCount ≤ g.1 with
    | some g => exact .refusalAt
    | none =>
      have hasked' := h.find?_asked (fun g => r.groupCount ≤ g) hasked
      rw [← h.groupCount] at hasked'
      simp only [hasked']
      exact .value ⟨rfl, h⟩

/-- A pattern that stays in step is read with `\Z` in place of `$` once it has been anchored. -/
theorem read_anchorEnd [CharacterNames] {e : Expr} {flags : Flags} (hread : read pattern = .ok (e, flags))
    (hstep : StaysInStep pattern) : read (anchorEnd pattern) = .ok (e.strict, flags) := by
  obtain ⟨verbose, hstep⟩ := hstep
  unfold read at hread ⊢
  split at hread
  next => cases hread
  next hwhole =>
    have hwhole' : anchorEnd pattern ≠ ['\\'] := by rw [anchorEnd_eq]; exact anchorFrom_ne hwhole
    rw [if_neg hwhole']
    obtain ⟨⟨d, r⟩, hwholeRead, hread⟩ := bind_eq_ok_iff.1 hread
    obtain ⟨_, r', hwholeRead', rfl, h⟩ := readWhole_anchorEnd hwhole hstep d r hwholeRead
    dsimp only at hread
    split at hread
    next => cases hread
    next hproblem =>
      cases hread
      refine bind_eq_ok_iff.2 ⟨(e.strict, r'), hwholeRead', ?_⟩
      simp only [h.flags, Expr.problem?_strict, hproblem]
      rfl

end

end Pattern

/-! ## Patterns of schemas -/

open Pattern Validator

section
variable {source : String} {e : Expr} {flags : Flags}

theorem search_empty [CharacterNames] (hread : read [] = .ok (e, flags)) (text : String) :
    searchFrom flags e.strict [] 0 text.toList := by
  have hempty : read [] = .ok (.seq [], Flags.none) := by cbv
  rw [hempty] at hread
  cases hread
  cases text.toList <;> simp [searchFrom, Expr.strict, Expr.strictAll, Expr.run, Expr.runAll]

/-- What the `pattern` of a node is compiled to finds nothing where the pattern, with `\Z` in place
    of `$`, finds nothing. -/
theorem exists_compilePattern [CharacterNames] (hread : read source.toList = .ok (e, flags))
    (hstep : StaysInStep source.toList) (pointer : String) : ∃ pattern, compilePattern (.text source) pointer = .ok pattern ∧
      ∀ text : String, (∃ q, pattern = some q ∧ ¬ q.search text) ↔ searchFrom flags e.strict [] 0 text.toList = false := by
  rw [compilePattern]
  split
  next hvacant =>
    obtain rfl : source = "" := by simpa [Value.isVacant] using hvacant
    exact ⟨none, rfl, fun text => by simp [search_empty hread text]⟩
  next =>
    have hofText : ofText (anchorEnd source.toList) = .ok ⟨String.ofList (anchorEnd source.toList), e.strict, flags⟩ := by
      rw [ofText, read_anchorEnd hread hstep]; rfl
    rw [anchored_text]
    simp only [hofText]
    exact ⟨_, rfl, fun text => by simp [search]⟩

/-- **`$` is the end.** A pattern that can be read, and over which the pass stays in step, is read
    after anchoring as before, but with `\Z` in place of every `$`. So a node of type `string` with
    the pattern compiles, a text violates the pattern exactly if that expression finds nothing in
    it, and for a text without line ends this is what the pattern itself would find. -/
theorem compileText_endAnchors [CharacterNames] (hread : read source.toList = .ok (e, flags))
    (hstep : StaysInStep source.toList) {fields : Fields} (hpattern : fields.named? "pattern" = some (.text source))
    (pointer : String) :
    read (anchorEnd source.toList) = .ok (e.strict, flags) ∧
      ∃ rules, compileText fields pointer = .ok (.text pointer rules) ∧ ∀ text : String,
        (Violates (.text pointer rules) (.text text) [] (.patternMismatch (.text source)) ↔
          searchFrom flags e.strict [] 0 text.toList = false) ∧
        ('\n' ∉ text.toList →
          searchFrom flags e.strict [] 0 text.toList = searchFrom flags e [] 0 text.toList) := by
  obtain ⟨pattern, hcompiled, hsearch⟩ := exists_compilePattern hread hstep (pointer ++ "/pattern")
  have hsource : (fields.given? "pattern").getD .null = .text source := by rw [Fields.given?, hpattern]; rfl
  refine ⟨read_anchorEnd hread hstep, _, by rw [compileText, Fields.named, hpattern, Option.getD_some, hcompiled]; rfl,
    fun text => ⟨?_, searchFrom_strict flags e 0 List.not_mem_nil⟩⟩
  rw [← hsearch]
  constructor
  · generalize hfinding : Finding.patternMismatch (.text source) = finding
    intro hviolates
    cases hviolates with
    | patternMismatch hq hmismatch => exact ⟨_, hq, hmismatch⟩
    | _ => cases hfinding
  · rintro ⟨q, hq, hmismatch⟩
    rw [← hsource]
    exact .patternMismatch hq hmismatch

end

/-- The label of a price, with a mark perhaps: a character by its name, a `$` in a set, a set that
    starts with its bracket. -/
def labelPattern : String := "^\\N\x7bNUMBER SIGN\x7d[0-9$]+([]a])?$"

theorem compileText_endAnchors_label : ∃ e flags rules, read labelPattern.toList = .ok (e, flags) ∧
    StaysInStep labelPattern.toList ∧ read (anchorEnd labelPattern.toList) = .ok (e.strict, flags) ∧
    compileText [(.text "pattern", .text labelPattern)] "#" = .ok (.text "#" rules) ∧
    searchFrom flags e [] 0 "#1\n".toList ∧
    Violates (.text "#" rules) (.text "#1\n") [] (.patternMismatch (.text labelPattern)) ∧
    ¬Violates (.text "#" rules) (.text "#1") [] (.patternMismatch (.text labelPattern)) := by
  have hstep : StaysInStep labelPattern.toList := by decide +kernel
  have hlenient : (read labelPattern.toList).map (fun x => searchFrom x.2 x.1 [] 0 "#1\n".toList) = .ok true := by
    decide +kernel
  have hline : (read labelPattern.toList).map (fun x => searchFrom x.2 x.1.strict [] 0 "#1\n".toList) = .ok false := by
    decide +kernel
  have hplain : (read labelPattern.toList).map (fun x => searchFrom x.2 x.1.strict [] 0 "#1".toList) = .ok true := by
    decide +kernel
  cases hread : read labelPattern.toList with
  | error f => rw [hread] at hline; cases hline
  | ok x =>
    obtain ⟨e, flags⟩ := x
    rw [hread] at hlenient hline hplain
    simp only [Except.map, Except.ok.injEq] at hlenient hline hplain
    have hpattern : Fields.named? [(.text "pattern", .text labelPattern)] "pattern" = some (.text labelPattern) := by
      decide
    obtain ⟨hanchored, rules, hrules, htexts⟩ := compileText_endAnchors hread hstep hpattern "#"
    refine ⟨e, flags, rules, rfl, hstep, hanchored, hrules, hlenient, (htexts "#1\n").1.2 hline, fun hviolates => ?_⟩
    rw [(htexts "#1").1.1 hviolates] at hplain
    cases hplain

-- out of step, what anchoring gives may be no pattern, or keep its `$`
example : ¬StaysInStep "[]$]".toList ∧ (read "[]$]".toList).isOk ∧ ¬(read (anchorEnd "[]$]".toList)).isOk := by
  decide +kernel
example : ¬StaysInStep "(?#[)a$".toList ∧ anchorEnd "(?#[)a$".toList = "(?#[)a$".toList := by decide

end SchemaGuard
