/-
  SchemaGuard — the patterns that end reading in a fault.

  Reading ends with an expression or a refusal, but for repeat counts beyond the greatest one or
  with too many digits, and for modes that ask for two alphabets. `Provokes pattern f`: what a
  pattern contains that reading ends in the fault `f`.

  * `Behind pattern text r`: the reading `r` is in the pattern, with `text` right before what is left;
  * `Ends pattern Q o`: a reader ended with a value and a reading that satisfy `Q`, refused, or
    ended in a fault that the pattern provokes. It is shown for each reader by the rules for the
    ways in which readers are put together, and for those that call each other by induction on
    the rounds (`readsOn`);
  * `provokes_of_ofText`, `Provokes.of_anchorEnd`: so it is for whole patterns, and what provokes a
    fault in an anchored pattern stands in the pattern itself.
-/
import Mathlib
import SchemaGuard.Compile
import SchemaGuard.Proofs.Pattern.Readers

namespace SchemaGuard.Pattern

/-! ## What is provoked by what -/

/-- A pattern contains repeat counts in braces, and the digits of one of them satisfy `p`. -/
def HasCount (pattern : List Char) (p : List Char → Prop) : Prop :=
  ∃ low high : List Char, (∀ c ∈ low, c.isDigit) ∧ (∀ c ∈ high, c.isDigit) ∧
    ((p low ∧ '\x7b' :: low ++ ['\x7d'] <:+: pattern) ∨
      ((p low ∨ p high) ∧ '\x7b' :: low ++ ',' :: high ++ ['\x7d'] <:+: pattern))

/-- A pattern contains a group of modes for the whole of it, and one of them is `letter`. -/
def HasMode (pattern : List Char) (letter : Char) : Prop :=
  ∃ letters : List Char, letter ∈ letters ∧ (∀ c ∈ letters, (flag? (.plain c)).isSome) ∧
    '(' :: '?' :: letters ++ [')'] <:+: pattern

/-- What in a pattern gives rise to a fault. -/
inductive Provokes (pattern : List Char) : Fault → Prop where
  | tooLarge (h : HasCount pattern fun digits => repeatLimit ≤ digitsValue 10 digits) : Provokes pattern .repeatTooLarge
  | tooLong (h : HasCount pattern fun digits => digitLimit < digits.length) : Provokes pattern .repeatTooLong
  | alphabets (hascii : HasMode pattern 'a') (hunicode : HasMode pattern 'u') : Provokes pattern .alphabetsConflict

/-! ## Readings -/

/-- A reading has `text` right behind it, and the modes that are on stand in the pattern. -/
structure Behind (pattern text : List Char) (r : Reading) : Prop where
  chars : text ++ r.chars <:+ pattern
  whole : r.chars ≠ ['\\']
  ascii : r.flags.ascii → HasMode pattern 'a'
  unicode : r.flags.unicode → HasMode pattern 'u'

/-- A value and a reading that are related, a refusal, or a fault that the pattern provokes. -/
def Ends {α : Type} (pattern : List Char) (Q : α → Reading → Prop) : Except Failure (α × Reading) → Prop
  | .ok (a, s) => Q a s
  | .error (.refused _) => True
  | .error (.fault f) => Provokes pattern f

/-- Some value, and a reading of the pattern. -/
def Somewhere {α : Type} (pattern : List Char) (_ : α) (s : Reading) : Prop := Behind pattern [] s

namespace Ends
variable {α β : Type} {pattern : List Char} {r : Reading} {Q : α → Reading → Prop} {T : β → Reading → Prop}

theorem value {a : α} (h : Q a r) : Ends pattern Q ((pure a : Reader α) r) := h

theorem refusal {p : Problem} {back : Nat} : Ends pattern Q ((refuse p back : Reader α) r) := trivial

theorem refusalAt {p : Problem} {offset : Nat} : Ends pattern Q ((refuseAt p offset : Reader α) r) := trivial

theorem bind {x : Reader α} {f : α → Reader β} (hx : Ends pattern Q (x r)) (hf : ∀ a s, Q a s → Ends pattern T (f a s)) :
    Ends pattern T ((x >>= f) r) := by
  change Ends pattern T (x r >>= fun p => f p.1 p.2)
  generalize x r = o at hx
  match o with
  | .error (.refused _) => trivial
  | .error (.fault _) => exact hx
  | .ok (a, s) => exact hf a s hx

theorem state {f : Reading → Reader β} (h : Ends pattern T (f r r)) : Ends pattern T ((get >>= f) r) := h

theorem update {g : Reading → Reading} {f : PUnit → Reader β} (h : Ends pattern T (f ⟨⟩ (g r))) :
    Ends pattern T (((modify g : Reader PUnit) >>= f) r) := h

theorem ite {c : Prop} [Decidable c] {x y : Reader α} (hpos : c → Ends pattern Q (x r)) (hneg : ¬c → Ends pattern Q (y r)) :
    Ends pattern Q ((if c then x else y) r) := by
  by_cases h : c
  · rw [if_pos h]; exact hpos h
  · rw [if_neg h]; exact hneg h

/-- Two ways that go on alike. -/
theorem ite_bind {c : Prop} [Decidable c] {x y : Reader α} {f : α → Reader β} (hpos : c → Ends pattern Q (x r))
    (hneg : ¬c → Ends pattern Q (y r)) (hf : ∀ a s, Q a s → Ends pattern T (f a s)) :
    Ends pattern T ((if c then x >>= f else y >>= f) r) :=
  .ite (fun h => (hpos h).bind hf) fun h => (hneg h).bind hf

theorem mono {Q' : α → Reading → Prop} {o : Except Failure (α × Reading)} (h : Ends pattern Q o)
    (hQ : ∀ a s, Q a s → Q' a s) : Ends pattern Q' o := by
  match o with
  | .error (.refused _) => trivial
  | .error (.fault _) => exact h
  | .ok (a, s) => exact hQ a s h

end Ends

namespace Behind
variable {pattern text : List Char} {r : Reading}

/-- What is behind a reading may be forgotten, from the front. -/
theorem forget {text' : List Char} (h : Behind pattern text r) (hsuffix : text' <:+ text) : Behind pattern text' r where
  chars := by
    obtain ⟨before, rfl⟩ := hsuffix
    exact List.IsSuffix.trans ⟨before, (List.append_assoc ..).symm⟩ h.chars
  whole := h.whole
  ascii := h.ascii
  unicode := h.unicode

theorem somewhere (h : Behind pattern text r) : Behind pattern [] r := h.forget List.nil_suffix

theorem isInfix (h : Behind pattern text r) : text <:+: pattern :=
  List.IsInfix.trans ⟨[], r.chars, rfl⟩ h.chars.isInfix

/-- Groups, names and places may change freely. -/
theorem update {r' : Reading} (h : Behind pattern text r) (hchars : r'.chars = r.chars) (hflags : r'.flags = r.flags) :
    Behind pattern [] r' where
  chars := by rw [hchars]; exact h.somewhere.chars
  whole := by rw [hchars]; exact h.whole
  ascii := by rw [hflags]; exact h.ascii
  unicode := by rw [hflags]; exact h.unicode

/-! ## Tokens -/

/-- The token that is taken is the one in front, and it is behind the reading then. -/
theorem take (h : Behind pattern text r) :
    Ends pattern (fun t s => Behind pattern (text ++ t.elim [] Token.chars) s ∧ t = front r) (Pattern.take r) := by
  by_cases hnil : r.chars = []
  · rw [Reading.take_nil hnil]
    exact ⟨by simpa using h, by simp [front, hnil]⟩
  · obtain ⟨t, left, ht, hr⟩ := exists_token hnil h.whole
    rw [Reading.take_token ht hr, Reading.front_token ht hr]
    refine .bind (Q := fun _ s => Behind pattern (text ++ t.chars) s) ?_ fun _ s hs => .value ⟨hs, rfl⟩
    by_cases hleft : left = ['\\']
    · rw [moveOn, if_pos hleft]; trivial
    · rw [moveOn, if_neg hleft]
      exact { h with chars := by rw [List.append_assoc, ← hr]; exact h.chars, whole := hleft }

theorem takeChar (h : Behind pattern text r) (c : Char) :
    Ends pattern (fun taken s => Behind pattern (text ++ if taken then [c] else []) s) (Pattern.takeChar c r) := by
  refine .state (.ite (fun hfront => h.take.bind fun t s hs => .value ?_) fun _ => .value ?_)
  · rw [hs.2, hfront] at hs
    exact hs.1
  · simpa using h

theorem takeUpTo (h : Behind pattern text r) (p : Char → Bool) (count : Nat) :
    Ends pattern (fun cs s => Behind pattern (text ++ cs) s ∧ ∀ c ∈ cs, p c) (Pattern.takeUpTo p count r) := by
  induction count generalizing text r with
  | zero => exact .value ⟨by simpa using h, nofun⟩
  | succ count ih =>
    refine .state ?_
    rcases hfront : front r with _ | c | _
    · exact .value ⟨by simpa using h, nofun⟩
    · refine .ite (fun hc => h.take.bind fun t s hs => ?_) fun _ => .value ⟨by simpa using h, nofun⟩
      rw [hs.2, hfront] at hs
      refine (ih hs.1).bind fun cs u hu => .value ⟨?_, List.forall_mem_cons.2 ⟨hc, hu.2⟩⟩
      simpa [Token.chars] using hu.1
    · exact .value ⟨by simpa using h, nofun⟩

theorem takeAll (h : Behind pattern text r) (p : Char → Bool) :
    Ends pattern (fun cs s => Behind pattern (text ++ cs) s ∧ ∀ c ∈ cs, p c) (Pattern.takeAll p r) :=
  .state (h.takeUpTo p _)

theorem takeName (h : Behind pattern text r) (terminator : Char) (sort : String) :
    Ends pattern (Somewhere pattern) (Pattern.takeName terminator sort r) := by
  refine .state ?_
  generalize r.chars.length + 1 = rounds
  generalize [] = read
  induction rounds generalizing text r read with
  | zero => exact .refusal
  | succ rounds ih =>
    rw [takeName.go]
    refine h.take.bind fun t s hs => ?_
    cases t with
    | none => exact .ite (fun _ => .refusal) fun _ => .refusal
    | some t => exact .ite (fun _ => .ite (fun _ => .refusal) fun _ => .value hs.1.somewhere) fun _ => ih hs.1 _

/-! ## Groups -/

theorem openGroup (h : Behind pattern text r) (name : Option (List Char)) :
    Ends pattern (Somewhere pattern) (Pattern.openGroup name r) := by
  refine .state ?_
  cases name with
  | none => exact h.update rfl rfl
  | some n =>
    dsimp only
    cases r.named? n with
    | none => exact h.update rfl rfl
    | some earlier => exact .refusal

theorem closeGroup (h : Behind pattern text r) (group : Nat) (width : Width) :
    Ends pattern (Somewhere pattern) (Pattern.closeGroup group width r) :=
  h.update rfl rfl

theorem checkLookBehind (h : Behind pattern text r) (group : Nat) :
    Ends pattern (Somewhere pattern) (Pattern.checkLookBehind group r) := by
  refine .state ?_
  cases r.behind with
  | none => exact .value h.somewhere
  | some first => exact .ite (fun _ => .refusal) fun _ => .ite (fun _ => .refusal) fun _ => .value h.somewhere

theorem checkName (h : Behind pattern text r) (name : List Char) :
    Ends pattern (Somewhere pattern) (Pattern.checkName name r) :=
  .ite (fun _ => .value h.somewhere) fun _ => .refusal

theorem groupReference (h : Behind pattern text r) (group written : Nat) :
    Ends pattern (Somewhere pattern) (Pattern.groupReference group written r) := by
  refine .state (.ite (fun _ => .ite (fun _ => .refusal) fun _ => ?_) fun _ => .refusal)
  exact (h.checkLookBehind group).bind fun _ _ hs => .value hs

theorem readNamedReference (h : Behind pattern text r) :
    Ends pattern (Somewhere pattern) (Pattern.readNamedReference r) := by
  refine (h.takeName _ _).bind fun name s hs => (checkName hs name).bind fun _ u hu => .state ?_
  cases u.named? name with
  | none => exact .refusal
  | some group => exact .ite (fun _ => .refusal) fun _ => (checkLookBehind hu group).bind fun _ _ hv => .value hv

theorem readCondition (h : Behind pattern text r) : Ends pattern (Somewhere pattern) (Pattern.readCondition r) := by
  refine (h.takeName _ _).bind fun name s hs => .ite (fun _ => .state ?_) fun _ => ?_
  · cases s.named? name with
    | none => exact .refusal
    | some group => exact (checkLookBehind hs group).bind fun _ _ hu => .value hu
  · rcases integer? name with _ | group | _
    · exact .refusal
    · refine .ite (fun _ => .refusal) fun _ => .ite (fun _ => .refusal) fun _ => .update ?_
      have hasked : Behind pattern [] (if s.asked.any (·.1 == group) then s
          else { s with asked := s.asked ++ [(group, s.offset - name.length - 1)] }) := by
        split
        next => exact hs
        next => exact Behind.update hs rfl rfl
      exact (hasked.checkLookBehind group).bind fun _ _ hu => .value hu
    · exact .refusal

/-! ## Escapes -/

theorem readCode? [CharacterNames] (h : Behind pattern text r) (c : Char) :
    Ends pattern (Somewhere pattern) (Pattern.readCode? c r) := by
  unfold Pattern.readCode?
  split
  case h_4 =>
    refine (h.takeChar _).bind fun _ s hs => .ite (fun _ => ?_) fun _ => .refusal
    refine (hs.takeName _ _).bind fun name u hu => ?_
    cases namedCode? name with
    | none => exact .refusal
    | some code => exact .value hu
  case h_5 => exact .value h.somewhere
  all_goals
    refine .bind (Q := Somewhere pattern) ?_ fun _ _ hu => .value hu
    refine (h.takeUpTo _ _).bind fun _ s hs => ?_
    exact .ite (fun _ => .refusal) fun _ => .ite (fun _ => .refusal) fun _ => .value hs.1.somewhere

theorem octalCode (h : Behind pattern text r) (c : Char) (digits : List Char) :
    Ends pattern (Somewhere pattern) (Pattern.octalCode c digits r) :=
  .ite (fun _ => .refusal) fun _ => .value h.somewhere

theorem readMemberEscape [CharacterNames] (h : Behind pattern text r) (c : Char) :
    Ends pattern (Somewhere pattern) (Pattern.readMemberEscape c r) := by
  unfold Pattern.readMemberEscape
  rcases controlCode? c with _ | code
  · rcases category? c with _ | m
    · refine (h.readCode? c).bind fun code s hs => ?_
      cases code with
      | some code => exact .value hs
      | none =>
        refine .ite (fun _ => ?_) fun _ => .ite (fun _ => .refusal) fun _ => .value hs
        exact (Behind.takeUpTo hs _ _).bind fun digits _ hu => (hu.1.octalCode c digits).bind fun _ _ hv => .value hv
    · exact .value h.somewhere
  · exact .value h.somewhere

theorem readDigitEscape [CharacterNames] (h : Behind pattern text r) (c : Char) :
    Ends pattern (Somewhere pattern) (Pattern.readDigitEscape c r) := by
  refine .state ?_
  rcases front r with _ | d | _
  · exact h.groupReference _ _
  · refine .ite (fun _ => h.take.bind fun _ s hs => .state ?_) fun _ => h.groupReference _ _
    have hs := hs.1
    rcases front s with _ | e | _
    · exact hs.groupReference _ _
    · by_cases he : isOctalDigit c && isOctalDigit d && isOctalDigit e
      · simp only [if_pos he]
        exact hs.take.bind fun _ u hu => (hu.1.octalCode c [d, e]).bind fun _ _ hv => .value hv
      · simp only [if_neg he]
        exact hs.groupReference _ _
    · exact hs.groupReference _ _
  · exact h.groupReference _ _

theorem readEscape [CharacterNames] (h : Behind pattern text r) (c : Char) :
    Ends pattern (Somewhere pattern) (Pattern.readEscape c r) := by
  unfold Pattern.readEscape
  rcases place? c with _ | p
  · rcases category? c with _ | m
    · rcases controlCode? c with _ | code
      · refine (h.readCode? c).bind fun code s hs => ?_
        cases code with
        | some code => exact .value hs
        | none =>
          refine .ite (fun _ => ?_) fun _ => .ite (fun _ => readDigitEscape hs c) fun _ =>
            .ite (fun _ => .refusal) fun _ => .value hs
          exact (Behind.takeUpTo hs _ _).bind fun _ _ hu => .value hu.1.somewhere
      · exact .value h.somewhere
    · exact .value h.somewhere
  · exact .value h.somewhere

/-! ## Sets -/

theorem readMember [CharacterNames] (h : Behind pattern text r) (t : Token) :
    Ends pattern (Somewhere pattern) (Pattern.readMember t r) := by
  cases t with
  | plain c => exact .value h.somewhere
  | escaped c => exact h.readMemberEscape c

theorem readMembers [CharacterNames] (h : Behind pattern text r) (start rounds : Nat) (read : List Member) :
    Ends pattern (Somewhere pattern) (Pattern.readMembers start rounds read r) := by
  induction rounds generalizing text r read with
  | zero => exact .refusalAt
  | succ rounds ih =>
    refine h.take.bind fun this s hs => ?_
    cases this with
    | none => exact .refusalAt
    | some this =>
      refine .ite (fun _ => .value hs.1.somewhere) fun _ => (hs.1.readMember this).bind fun first u hu => ?_
      refine (Behind.takeChar hu '-').bind fun dash w hw => .ite (fun _ => ?_) fun _ => ih hw _
      refine hw.take.bind fun that x hx => ?_
      cases that with
      | none => exact .refusalAt
      | some that =>
        refine .ite (fun _ => .value hx.1.somewhere) fun _ => (hx.1.readMember that).bind fun last y hy => ?_
        cases first with
        | code a =>
          cases last with
          | code b => exact .ite (fun _ => .refusal) fun _ => ih hy _
          | _ => exact .refusal
        | _ => exact .refusal

theorem readSet [CharacterNames] (h : Behind pattern text r) : Ends pattern (Somewhere pattern) (Pattern.readSet r) :=
  .state ((h.takeChar '^').bind fun _ _ hs => .state ((hs.readMembers _ _ []).bind fun _ _ hu => .value hu))

/-! ## Repetition -/

/-- Digits are a count, or too many or too large in a pattern with such a count. -/
theorem repeatCount? (h : Behind pattern text r) {digits : List Char}
    (hcount : ∀ p : List Char → Prop, p digits → HasCount pattern p) :
    Ends pattern (fun _ s => Behind pattern text s) (Pattern.repeatCount? digits r) := by
  refine .ite (fun _ => .value h) fun _ => ?_
  by_cases hlong : digitLimit < digits.length
  · rw [if_pos hlong]
    exact .tooLong (hcount _ hlong)
  · rw [if_neg hlong]
    by_cases hlarge : repeatLimit ≤ digitsValue 10 digits
    · simp only [if_pos hlarge]
      exact .tooLarge (hcount _ hlarge)
    · simp only [if_neg hlarge]
      exact .value h

theorem readBounds (h : Behind pattern ['\x7b'] r) : Ends pattern (Somewhere pattern) (Pattern.readBounds r) := by
  refine .state (.ite (fun _ => .value h.somewhere) fun _ => ?_)
  refine (h.takeAll Char.isDigit).bind fun low s hlow => ?_
  refine (hlow.1.takeChar ',').bind fun comma u hu => ?_
  -- `counts` is what has been read since the opening brace, which makes it a count once it is closed
  refine .ite_bind (Q := fun high v => ∃ counts, Behind pattern counts v ∧ ∀ p : List Char → Prop, p low ∨ p high →
    counts ++ ['\x7d'] <:+: pattern → HasCount pattern p) (fun hcomma => ?_) (fun hcomma => ?_) ?_
  · refine (hu.takeAll Char.isDigit).mono fun high v hhigh => ⟨_, hhigh.1, fun p hp hinfix => ?_⟩
    exact ⟨low, high, hlow.2, hhigh.2, Or.inr ⟨hp, by simpa [hcomma] using hinfix⟩⟩
  · refine .value ⟨_, hu, fun p hp hinfix => ?_⟩
    exact ⟨low, [], hlow.2, nofun, Or.inl ⟨hp.elim id id, by simpa [hcomma] using hinfix⟩⟩
  · rintro high v ⟨counts, hv, hcount⟩
    refine (hv.takeChar '\x7d').bind fun closed w hw => .ite (fun hclosed => ?_) fun _ => h.somewhere
    rw [if_pos hclosed] at hw
    refine (hw.repeatCount? fun p hp => hcount p (Or.inl hp) hw.isInfix).bind fun least x hx => ?_
    refine (hx.repeatCount? fun p hp => hcount p (Or.inr hp) hw.isInfix).bind fun greatest y hy => ?_
    cases greatest with
    | none => exact .value hy.somewhere
    | some greatest => exact .ite (fun _ => .refusalAt) fun _ => .value hy.somewhere

theorem readMode (h : Behind pattern text r) : Ends pattern (Somewhere pattern) (Pattern.readMode r) :=
  (h.takeChar '?').bind fun _ _ hs => .ite (fun _ => .value hs.somewhere) fun _ =>
    (hs.takeChar '+').bind fun _ _ hu => .ite (fun _ => .value hu.somewhere) fun _ => .value hu.somewhere

theorem repeatLast (h : Behind pattern text r) (start least : Nat) (greatest : Option Nat) (read : List Expr) :
    Ends pattern (Somewhere pattern) (Pattern.repeatLast start least greatest read r) := by
  cases read with
  | nil => exact .refusalAt (r := r)
  | cons item before =>
    cases item
    case «at» => exact .refusalAt (r := r)
    case repeated => exact .refusalAt (r := r)
    all_goals exact h.readMode.bind fun _ _ hs => .value hs

/-! ## Parentheses and comments -/

theorem closeParenthesis (h : Behind pattern text r) (start : Nat) :
    Ends pattern (Somewhere pattern) (Pattern.closeParenthesis start r) :=
  (h.takeChar ')').bind fun _ _ hs => .ite (fun _ => .value hs.somewhere) fun _ => .refusalAt

theorem skipLine (h : Behind pattern text r) (rounds : Nat) :
    Ends pattern (Somewhere pattern) (Pattern.skipLine rounds r) := by
  induction rounds generalizing text r with
  | zero => exact .value h.somewhere
  | succ rounds ih =>
    refine h.take.bind fun t s hs => ?_
    cases t with
    | none => exact .value hs.1.somewhere
    | some t => exact .ite (fun _ => .value hs.1.somewhere) fun _ => ih hs.1

theorem skipComment (h : Behind pattern text r) (start rounds : Nat) :
    Ends pattern (Somewhere pattern) (Pattern.skipComment start rounds r) := by
  induction rounds generalizing text r with
  | zero => exact .refusalAt
  | succ rounds ih =>
    refine h.take.bind fun t s hs => ?_
    cases t with
    | none => exact .refusalAt
    | some t => exact .ite (fun _ => .value hs.1.somewhere) fun _ => ih hs.1

/-! ## Modes -/

theorem exists_letter {t : Token} (h : t = .plain 'L' ∨ (flag? t).isSome) :
    ∃ c, t = .plain c ∧ (c = 'L' ∨ (flag? (.plain c)).isSome) := by
  rcases t with c | c
  · exact ⟨c, rfl, h.imp_left fun heq => by cases heq; rfl⟩
  · rcases h with heq | hflag
    · cases heq
    · cases hflag

theorem eq_of_choosesAlphabet {c : Char} : (((flag? (.plain c)).getD Flags.none).ascii → c = 'a') ∧
    (((flag? (.plain c)).getD Flags.none).unicode → c = 'u') := by
  unfold flag?
  split <;> simp_all [Flags.none]

/-- Modes that were read behind the start of a group, with their letters and the token after them. -/
structure Turned (pattern letters : List Char) (on : Flags) (t : Token) (s : Reading) : Prop where
  behind : Behind pattern ('(' :: '?' :: letters ++ t.chars) s
  flags : ∀ c ∈ letters, (flag? (.plain c)).isSome
  ascii : on.ascii → 'a' ∈ letters
  unicode : on.unicode → 'u' ∈ letters

theorem readFlagsOn {letters : List Char} {letter : Token} {on : Flags} (hletter : letter = .plain 'L' ∨ (flag? letter).isSome)
    (h : Turned pattern letters on letter r) (rounds : Nat) :
    Ends pattern (fun p s => ∃ letters, Turned pattern letters p.1 p.2 s) (Pattern.readFlagsOn rounds letter on r) := by
  induction rounds generalizing letters letter on r with
  | zero => exact .refusal
  | succ rounds ih =>
    obtain ⟨c, rfl, hc⟩ := exists_letter hletter
    refine .ite (fun _ => .refusal) fun hlocale => .ite (fun _ => .refusal) fun _ => ?_
    refine h.behind.take.bind fun t s hs => ?_
    have hflag : (flag? (.plain c)).isSome := hc.resolve_left fun heq => hlocale (by rw [heq])
    have hturned {t : Token} (hs : Behind pattern (('(' :: '?' :: letters ++ [c]) ++ t.chars) s) :
        Turned pattern (letters ++ [c]) (on.union ((flag? (.plain c)).getD Flags.none)) t s := by
      refine ⟨by simpa using hs, List.forall_mem_append.2 ⟨h.flags, by simpa using hflag⟩, fun hon => ?_, fun hon => ?_⟩
      · rw [List.mem_append, List.mem_singleton]
        exact (Bool.or_eq_true_iff.1 hon).imp h.ascii fun hone => (eq_of_choosesAlphabet.1 hone).symm
      · rw [List.mem_append, List.mem_singleton]
        exact (Bool.or_eq_true_iff.1 hon).imp h.unicode fun hone => (eq_of_choosesAlphabet.2 hone).symm
    cases t with
    | none => exact .refusal
    | some t =>
      exact .ite (fun _ => .value ⟨_, hturned hs.1⟩) fun _ => .ite (fun hmode => ih hmode (hturned hs.1)) fun _ => .refusal

theorem readFlagsOff (h : Behind pattern text r) (rounds : Nat) (letter : Token) (off : Flags) :
    Ends pattern (Somewhere pattern) (Pattern.readFlagsOff rounds letter off r) := by
  induction rounds generalizing text r letter off with
  | zero => exact .refusal
  | succ rounds ih =>
    refine .ite (fun _ => .refusal) fun _ => h.take.bind fun t s hs => ?_
    cases t with
    | none => exact .refusal
    | some t => exact .ite (fun _ => .value hs.1.somewhere) fun _ => .ite (fun _ => ih hs.1 _ _) fun _ => .refusal

/-- Modes of the whole pattern stand in a group that is closed behind them. -/
theorem readFlags {first : Token} (hfirst : first = .plain '-' ∨ first = .plain 'L' ∨ (flag? first).isSome)
    (h : Behind pattern ('(' :: '?' :: first.chars) r) : Ends pattern (Somewhere pattern) (Pattern.readFlags first r) := by
  have hnone : Turned pattern [] Flags.none first r := ⟨h, nofun, nofun, nofun⟩
  unfold Pattern.readFlags
  refine .state (.ite_bind (Q := fun p s => ∃ letters, Turned pattern letters p.1 p.2 s) (fun _ => .value ⟨[], hnone⟩)
    (fun hdash => readFlagsOn (hfirst.resolve_left hdash) hnone _) ?_)
  rintro ⟨on, ending⟩ s ⟨letters, hs⟩
  refine .ite (fun hend => .update (.value ?_)) fun _ => .ite (fun _ => .refusal) fun _ => ?_
  · have hmode {letter : Char} (h : letter ∈ letters) : HasMode pattern letter := by
      have hbehind := hs.behind
      rw [hend] at hbehind
      exact ⟨letters, h, hs.flags, hbehind.isInfix⟩
    exact {
      chars := hs.behind.somewhere.chars
      whole := hs.behind.whole
      ascii := fun hon => (Bool.or_eq_true_iff.1 hon).elim hs.behind.ascii fun h => hmode (hs.ascii h)
      unicode := fun hon => (Bool.or_eq_true_iff.1 hon).elim hs.behind.unicode fun h => hmode (hs.unicode h) }
  · have hoff : ∀ off u, Behind pattern [] u → Ends pattern (Somewhere pattern)
        ((if off.template then refuse .globalFlagOff 1
          else if on.without off != on then refuse .flagOnAndOff 1 else return some (on, off) : Reader _) u) :=
      fun _ _ hu => .ite (fun _ => .refusal) fun _ => .ite (fun _ => .refusal) fun _ => .value hu
    refine .ite (fun _ => hs.behind.take.bind fun t u hu => ?_) fun _ => .bind (.value hs.behind.somewhere) hoff
    cases t with
    | none => trivial
    | some t => exact .ite (fun _ => (hu.1.readFlagsOff _ _ _).bind hoff) fun _ => trivial

end Behind

/-! ## Items -/

/-- With a number of rounds, the readers that call each other end well. -/
structure ReadsOn [CharacterNames] (pattern : List Char) (n : Nat) : Prop where
  alternatives : ∀ {text : List Char} {r : Reading} (verbose nested : Bool), Behind pattern text r →
    Ends pattern (Somewhere pattern) (readAlternatives n verbose nested r)
  branches : ∀ {text : List Char} {r : Reading} (verbose nested first : Bool), Behind pattern text r →
    Ends pattern (Somewhere pattern) (readBranches n verbose nested first r)
  items : ∀ {text : List Char} {r : Reading} (verbose atStart : Bool) (read : List Expr), Behind pattern text r →
    Ends pattern (Somewhere pattern) (readItems n verbose atStart read r)
  group : ∀ {r : Reading} (verbose : Bool) (start : Nat), Behind pattern ['('] r →
    Ends pattern (Somewhere pattern) (readGroup n verbose start r)

namespace ReadsOn
variable [CharacterNames] {pattern text : List Char} {n start : Nat} {verbose nested first atStart : Bool} {r : Reading}

theorem succ_alternatives (ih : ReadsOn pattern n) (h : Behind pattern text r) :
    Ends pattern (Somewhere pattern) (readAlternatives (n + 1) verbose nested r) := by
  rw [readAlternatives]
  exact (ih.branches verbose nested true h).bind fun _ _ hs => .value hs

theorem succ_branches (ih : ReadsOn pattern n) (h : Behind pattern text r) :
    Ends pattern (Somewhere pattern) (readBranches (n + 1) verbose nested first r) := by
  rw [readBranches]
  refine (ih.items verbose (!nested && first) [] h).bind fun branch s hs => (Behind.takeChar hs '|').bind fun bar u hu => ?_
  refine .ite (fun _ => .state ?_) fun _ => .value hu.somewhere
  exact (ih.branches _ nested false hu).bind fun _ _ hv => .value hv

/-- The last item repeated, and the items behind it. -/
theorem repeated (ih : ReadsOn pattern n) (h : Behind pattern text r) {least : Nat} {greatest : Option Nat}
    {read : List Expr} :
    Ends pattern (Somewhere pattern) ((repeatLast start least greatest read >>= readItems n verbose atStart) r) :=
  (h.repeatLast _ _ _ _).bind fun items _ hs => ih.items verbose atStart items hs

theorem succ_items (ih : ReadsOn pattern n) (read : List Expr) (h : Behind pattern text r) :
    Ends pattern (Somewhere pattern) (readItems (n + 1) verbose atStart read r) := by
  rw [readItems]
  refine .state (.ite (fun _ => .value h.somewhere) fun _ => h.take.bind fun t s hs => ?_)
  replace hs := hs.1
  rcases t with _ | c | c
  · exact .value hs.somewhere
  · have hbehind : Behind pattern [c] s := hs.forget (List.suffix_append _ _)
    refine .state (.ite (fun _ => ih.items _ _ _ hs) fun _ => .ite (fun _ => ?_) fun _ => ?_)
    · exact .state ((hs.skipLine _).bind fun _ _ hu => ih.items _ _ _ hu)
    split
    case h_1 => exact hs.readSet.bind fun e _ hu => ih.items _ _ (e :: read) hu
    case h_2 => exact ih.items _ _ (.any :: read) hs
    case h_3 => exact ih.items _ _ (.at .start :: read) hs
    case h_4 => exact ih.items _ _ (.at .finish :: read) hs
    case h_5 => exact ih.repeated hs
    case h_6 => exact ih.repeated hs
    case h_7 => exact ih.repeated hs
    case h_8 =>
      refine hbehind.readBounds.bind fun bounds u hu => ?_
      rcases bounds with _ | ⟨least, greatest⟩
      · exact ih.items _ _ (.literal _ :: read) hu
      · exact ih.repeated hu
    case h_9 =>
      refine (ih.group verbose _ hbehind).bind fun piece u hu => ?_
      cases piece with
      | item e => exact ih.items _ _ (e :: read) hu
      | comment => exact ih.items _ _ read hu
      | modes => exact .ite (fun _ => .state (ih.items _ _ read hu)) fun _ => .refusalAt
    case h_10 => exact ih.items _ _ (.literal c.toNat :: read) hs
  · exact (hs.readEscape c).bind fun e _ hu => ih.items _ _ (e :: read) hu

/-- A body up to its closing parenthesis. -/
theorem enclosed (ih : ReadsOn pattern n) (h : Behind pattern text r) (f : Expr → Piece) :
    Ends pattern (Somewhere pattern)
      ((do
        let body ← readAlternatives n verbose true
        closeParenthesis start
        return f body : Reader Piece) r) :=
  (ih.alternatives verbose true h).bind fun _ _ hs => (Behind.closeParenthesis hs start).bind fun _ _ hu => .value hu

/-- A body that is kept under a number. -/
theorem captured (ih : ReadsOn pattern n) (h : Behind pattern text r) (name : Option (List Char)) :
    Ends pattern (Somewhere pattern)
      ((do
        let group ← openGroup name
        let body ← readAlternatives n verbose true
        closeParenthesis start
        closeGroup group (body.width (← get).widths)
        return .item (.capture group body) : Reader Piece) r) :=
  (h.openGroup name).bind fun group _ hs => (ih.alternatives verbose true hs).bind fun _ _ hu =>
    (Behind.closeParenthesis hu start).bind fun _ _ hv => .state ((Behind.closeGroup hv group _).bind fun _ _ hw => .value hw)

/-- The body of a look-behind. -/
theorem lookedBehind (ih : ReadsOn pattern n) (h : Behind pattern text r) (negated : Bool) :
    Ends pattern (Somewhere pattern)
      ((do
        let before := (← get).behind
        modify fun r => { r with behind := some (before.getD r.groupCount) }
        let body ← readAlternatives n verbose true
        modify fun r => { r with behind := before }
        closeParenthesis start
        let width := body.width (← get).widths
        return .item (.look (.behind width.least width.greatest) negated body) : Reader Piece) r) := by
  have hinside : Behind pattern [] { r with behind := some (r.behind.getD r.groupCount) } := h.update rfl rfl
  refine .state (.update ((ih.alternatives verbose true hinside).bind fun body s hs => .update ?_))
  have hoff : Behind pattern [] { s with behind := r.behind } := Behind.update hs rfl rfl
  exact (hoff.closeParenthesis start).bind fun _ _ hu => .state (.value hu)

/-- The two branches behind a condition. -/
theorem chosen (ih : ReadsOn pattern n) (h : Behind pattern text r) (group : Nat) :
    Ends pattern (Somewhere pattern)
      ((do
        let yes ← readItems n verbose false []
        let no ←
          if ← takeChar '|' then
            let no ← readItems n verbose false []
            if front (← get) = some (.plain '|') then refuse .thirdBranch 0 else pure no
          else pure []
        closeParenthesis start
        return .item (.choose group (.seq yes) (.seq no)) : Reader Piece) r) := by
  refine (ih.items verbose false [] h).bind fun yes s hs => (Behind.takeChar hs '|').bind fun bar u hu => ?_
  have hclose : ∀ (no : List Expr) {text : List Char} {v : Reading}, Behind pattern text v → Ends pattern (Somewhere pattern)
      ((do
        closeParenthesis start
        return .item (.choose group (.seq yes) (.seq no)) : Reader Piece) v) :=
    fun no _ _ hv => (hv.closeParenthesis start).bind fun _ _ hw => .value hw
  refine .ite (fun _ => ?_) fun _ => hclose [] hu
  exact (ih.items verbose false [] hu).bind fun no v hv => .state (.ite (fun _ => trivial) fun _ => hclose no hv)

/-- Modes, and the body of the group if they are only for it. -/
theorem moded (ih : ReadsOn pattern n) {t : Token} (ht : t = .plain '-' ∨ t = .plain 'L' ∨ (flag? t).isSome)
    (h : Behind pattern ('(' :: '?' :: t.chars) r) :
    Ends pattern (Somewhere pattern)
      ((do
        match ← readFlags t with
        | none => return .modes
        | some (on, off) =>
          let body ← readAlternatives n ((verbose || on.verbose) && !off.verbose) true
          closeParenthesis start
          return .item (.modal on off body) : Reader Piece) r) := by
  refine (Behind.readFlags ht h).bind fun modes s hs => ?_
  rcases modes with _ | ⟨on, off⟩
  · exact .value hs
  · exact ih.enclosed hs _

theorem succ_group (ih : ReadsOn pattern n) (h : Behind pattern ['('] r) :
    Ends pattern (Somewhere pattern) (readGroup (n + 1) verbose start r) := by
  rw [readGroup]
  refine (h.takeChar '?').bind fun question s hs => ?_
  cases question with
  | false => exact ih.captured hs none
  | true =>
    refine hs.take.bind fun t u hu => ?_
    replace hu := hu.1
    generalize hkind : t = kind at hu
    split <;> cases hkind
    case h_1 => exact .refusal
    case h_2 =>
      refine (hu.takeChar '<').bind fun _ v hv => .ite (fun _ => ?_) fun _ => (hv.takeChar '=').bind fun _ w hw => ?_
      · exact (hv.takeName _ _).bind fun name _ hw => (Behind.checkName hw name).bind fun _ _ hx => ih.captured hx (some name)
      · refine .ite (fun _ => hw.readNamedReference.bind fun _ _ hx => .value hx) fun _ => hw.take.bind fun t _ _ => ?_
        cases t <;> exact .refusal
    case h_3 => exact ih.enclosed hu _
    case h_4 => exact .state ((hu.skipComment _ _).bind fun _ _ hv => .value hv)
    case h_5 => exact ih.enclosed hu _
    case h_6 => exact ih.enclosed hu _
    case h_7 =>
      refine hu.take.bind fun t v hv => ?_
      cases t with
      | none => exact .refusal
      | some t => exact .ite (fun _ => ih.lookedBehind hv.1 _) fun _ => .refusal
    case h_8 => exact hu.readCondition.bind fun group _ hv => ih.chosen hv group
    case h_9 => exact ih.enclosed hu _
    case h_10 => exact .ite (fun hmodes => ih.moded hmodes hu) fun _ => .refusal

theorem zero (pattern : List Char) : ReadsOn pattern 0 where
  alternatives := fun _ _ _ => trivial
  branches := fun _ _ _ _ => trivial
  items := fun _ _ _ _ => trivial
  group := fun _ _ _ => trivial

theorem succ (ih : ReadsOn pattern n) : ReadsOn pattern (n + 1) where
  alternatives _ _ h := ih.succ_alternatives h
  branches _ _ _ h := ih.succ_branches h
  items _ _ read h := ih.succ_items read h
  group _ _ h := ih.succ_group h

end ReadsOn

theorem readsOn [CharacterNames] (pattern : List Char) (n : Nat) : ReadsOn pattern n := by
  induction n with
  | zero => exact .zero pattern
  | succ n ih => exact ih.succ

/-! ## Whole patterns -/

theorem Behind.start {pattern : List Char} (hwhole : pattern ≠ ['\\']) : Behind pattern [] (Reading.start pattern) where
  chars := List.suffix_refl pattern
  whole := hwhole
  ascii := nofun
  unicode := nofun

theorem readWhole_ends [CharacterNames] {pattern : List Char} (hwhole : pattern ≠ ['\\']) :
    Ends pattern (Somewhere pattern) (readWhole pattern (Reading.start pattern)) := by
  refine ((readsOn pattern _).alternatives false false (.start hwhole)).bind fun e s hs => .state ?_
  by_cases hboth : s.flags.ascii && s.flags.unicode
  · rw [if_pos hboth]
    obtain ⟨hascii, hunicode⟩ := Bool.and_eq_true_iff.1 hboth
    exact .alphabets (hs.ascii hascii) (hs.unicode hunicode)
  · rw [if_neg hboth]
    refine .ite (fun _ => .refusal) fun _ => ?_
    cases s.asked.find? fun g => s.groupCount ≤ g.1 with
    | none => exact .value hs
    | some g => exact .refusalAt (r := s)

/-- Reading faults only where the pattern provokes it. -/
theorem provokes_of_read [CharacterNames] {pattern : List Char} {f : Fault} (h : read pattern = .error (.fault f)) :
    Provokes pattern f := by
  unfold read at h
  split at h
  next => cases h
  next hwhole =>
    have hends := readWhole_ends hwhole
    change (readWhole pattern (Reading.start pattern) >>= _) = _ at h
    generalize readWhole pattern (Reading.start pattern) = o at hends h
    rcases o with (r | f) | ⟨e, s⟩
    · cases h
    · cases h; exact hends
    · -- what has been read is taken, or refused for its look-behinds
      simp only [bind, Except.bind] at h
      split at h <;> cases h

theorem provokes_of_ofText [CharacterNames] {pattern : List Char} {f : Fault}
    (h : ofText pattern = .error (.fault f)) : Provokes pattern f := by
  unfold ofText at h
  cases hread : read pattern with
  | ok p => rw [hread] at h; cases h
  | error e => rw [hread] at h; cases h; exact provokes_of_read hread

/-! ## Anchored patterns -/

section
variable {pattern : List Char} {p : List Char → Prop}

theorem Scan.anchored_cases (state : Scan) (c : Char) : state.anchored [c] = [c] ∨ state.anchored [c] = ['\\', 'Z'] := by
  unfold Scan.anchored
  split
  next => exact Or.inr rfl
  next => exact Or.inl rfl

theorem isPrefix_of_anchorPieces {text : List Char} (hback : '\\' ∉ text) {state : Scan} {cs : List Char}
    (h : text <+: anchorPieces state (cs.map ([·]))) : text <+: cs := by
  induction text generalizing state cs with
  | nil => exact List.nil_prefix
  | cons c text ih =>
    rw [List.mem_cons, not_or] at hback
    cases cs with
    | nil => exact absurd (List.prefix_nil.1 h) (List.cons_ne_nil _ _)
    | cons d cs =>
      rw [List.map_cons, anchorPieces] at h
      rcases state.anchored_cases d with heq | heq
      · rw [heq, List.singleton_append, List.cons_prefix_cons] at h
        exact List.cons_prefix_cons.2 ⟨h.1, ih hback.2 h.2⟩
      · rw [heq, List.cons_append, List.cons_prefix_cons] at h
        exact absurd h.1.symm hback.1

/-- What is in an anchored pattern and has no part of an anchor is in the pattern. -/
theorem isInfix_of_anchorPieces {text : List Char} (hback : '\\' ∉ text) (hend : 'Z' ∉ text) {state : Scan} {cs : List Char}
    (h : text <:+: anchorPieces state (cs.map ([·]))) : text <:+: cs := by
  induction cs generalizing state with
  | nil => exact h
  | cons d cs ih =>
    by_cases hprefix : text <+: anchorPieces state ((d :: cs).map ([·]))
    · exact (isPrefix_of_anchorPieces hback hprefix).isInfix
    rw [List.map_cons, anchorPieces] at h hprefix
    rcases state.anchored_cases d with heq | heq
    · rw [heq, List.singleton_append] at h hprefix
      exact List.infix_cons (ih ((List.infix_cons_iff.1 h).resolve_left hprefix))
    · rw [heq, List.cons_append, List.singleton_append] at h hprefix
      rcases List.infix_cons_iff.1 ((List.infix_cons_iff.1 h).resolve_left hprefix) with hz | hrest
      · cases text with
        | nil => exact List.nil_infix
        | cons c text => exact absurd (List.mem_cons.2 (Or.inl (List.cons_prefix_cons.1 hz).1.symm)) hend
      · exact List.infix_cons (ih hrest)

theorem isInfix_of_anchorEnd {text : List Char} (hplain : ∀ c ∈ text, c ≠ '\\' ∧ c ≠ 'Z')
    (h : text <:+: anchorEnd pattern) : text <:+: pattern :=
  isInfix_of_anchorPieces (fun hmem => (hplain _ hmem).1 rfl) (fun hmem => (hplain _ hmem).2 rfl) h

theorem HasCount.of_anchorEnd (h : HasCount (anchorEnd pattern) p) : HasCount pattern p := by
  obtain ⟨low, high, hlow, hhigh, hin⟩ := h
  have hdigits {cs : List Char} (h : ∀ c ∈ cs, c.isDigit) : ∀ c ∈ cs, c ≠ '\\' ∧ c ≠ 'Z' := fun c hc =>
    ⟨by rintro rfl; exact absurd (h _ hc) (by decide), by rintro rfl; exact absurd (h _ hc) (by decide)⟩
  refine ⟨low, high, hlow, hhigh, hin.imp (And.imp_right (isInfix_of_anchorEnd ?_)) (And.imp_right (isInfix_of_anchorEnd ?_))⟩
  · simp only [List.forall_mem_append, List.forall_mem_cons]
    exact ⟨⟨⟨by decide, by decide⟩, hdigits hlow⟩, ⟨by decide, by decide⟩, nofun⟩
  · simp only [List.forall_mem_append, List.forall_mem_cons]
    exact ⟨⟨⟨⟨by decide, by decide⟩, hdigits hlow⟩, ⟨by decide, by decide⟩, hdigits hhigh⟩, ⟨by decide, by decide⟩, nofun⟩

theorem HasMode.of_anchorEnd {letter : Char} (h : HasMode (anchorEnd pattern) letter) : HasMode pattern letter := by
  obtain ⟨letters, hletter, hflags, hin⟩ := h
  refine ⟨letters, hletter, hflags, isInfix_of_anchorEnd ?_ hin⟩
  simp only [List.forall_mem_append, List.forall_mem_cons]
  refine ⟨⟨⟨by decide, by decide⟩, ⟨by decide, by decide⟩, fun c hc => ⟨?_, ?_⟩⟩, ⟨by decide, by decide⟩, nofun⟩
  · rintro rfl; exact absurd (hflags _ hc) (by decide)
  · rintro rfl; exact absurd (hflags _ hc) (by decide)

theorem Provokes.of_anchorEnd {f : Fault} (h : Provokes (anchorEnd pattern) f) : Provokes pattern f := by
  cases h with
  | tooLarge h => exact .tooLarge h.of_anchorEnd
  | tooLong h => exact .tooLong h.of_anchorEnd
  | alphabets hascii hunicode => exact .alphabets hascii.of_anchorEnd hunicode.of_anchorEnd

end

end SchemaGuard.Pattern
