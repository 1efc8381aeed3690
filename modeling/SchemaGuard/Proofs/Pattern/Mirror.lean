/-
  SchemaGuard — reading an anchored pattern next to the pattern.

  `Tracks verbose region r r'` relates the readings of a pattern and of what anchoring makes
  of it: what is left of one is what anchoring makes of the rest of the other, and the groups
  and modes are the same. `Mirrors Q x x'` says that `x'` succeeds where `x` does, with values
  and states that `Q` relates. The rules for `Mirrors` follow the ways readers are put together,
  and from them each reader of a token or a character is shown to keep to the relation.
-/
import Mathlib
import SchemaGuard.Proofs.Pattern.Tokens

namespace SchemaGuard.Pattern

/-! ## Two readings -/

/-- One reading is where the other one is, with its rest anchored and nothing ahead that
    would put the pass out of step. -/
structure Tracks (verbose : Bool) (region : Region) (r r' : Reading) : Prop where
  chars : r'.chars = anchorFrom region r.chars
  whole : r.chars ≠ ['\\']
  ahead : inStep verbose region.scan r.chars
  members : region = .member → isCalm r.chars
  modes : r.flags.verbose → verbose
  flags : r'.flags = r.flags
  groups : r'.groups = r.groups
  names : r'.names = r.names
  behind : r'.behind = r.behind
  asked : r'.asked.map (·.1) = r.asked.map (·.1)

/-- The second outcome is a success where the first one is, and then they are related. -/
def Mirrors {α : Type} (Q : α → Reading → α → Reading → Prop) (x x' : Except Failure (α × Reading)) : Prop :=
  ∀ a r, x = .ok (a, r) → ∃ a' r', x' = .ok (a', r') ∧ Q a r a' r'

/-- The same value, and readings that go on together. -/
def Together {α : Type} (verbose : Bool) (region : Region) (a : α) (r : Reading) (a' : α) (r' : Reading) : Prop :=
  a' = a ∧ Tracks verbose region r r'

/-- What taking a name comes to: a name without brackets and `$` is the same in both readings. -/
def Names (verbose : Bool) (region : Region) (name : List Char) (s : Reading) (name' : List Char) (s' : Reading) : Prop :=
  ∃ j, Tracks verbose j s s' ∧ ((∀ c ∈ name, isNeutral c) → name' = name ∧ j = region)

namespace Mirrors
variable {α β : Type} {Q : α → Reading → α → Reading → Prop} {T : β → Reading → β → Reading → Prop}
  {r r' : Reading}

theorem value {a a' : α} (h : Q a r a' r') : Mirrors Q ((pure a : Reader α) r) ((pure a' : Reader α) r') := by
  intro b s heq
  cases heq
  exact ⟨a', r', rfl, h⟩

theorem done {a a' : α} (h : Q a r a' r') : Mirrors Q (.ok (a, r)) (.ok (a', r')) := value h

theorem refusal {p : Problem} {back : Nat} {x' : Except Failure (α × Reading)} :
    Mirrors Q ((refuse p back : Reader α) r) x' := nofun

theorem refusalAt {p : Problem} {offset : Nat} {x' : Except Failure (α × Reading)} :
    Mirrors Q ((refuseAt p offset : Reader α) r) x' := nofun

theorem fault {f : Failure} {x' : Except Failure (α × Reading)} : Mirrors Q (.error f) x' := nofun

theorem bind {x x' : Reader α} {f f' : α → Reader β} (hx : Mirrors Q (x r) (x' r'))
    (hf : ∀ a s a' s', Q a s a' s' → Mirrors T (f a s) (f' a' s')) :
    Mirrors T ((x >>= f) r) ((x' >>= f') r') := by
  intro b t heq
  cases hfirst : x r with
  | error e => simp [Bind.bind, StateT.bind, hfirst, Except.bind] at heq
  | ok as =>
    obtain ⟨a, s⟩ := as
    obtain ⟨a', s', hfirst', hQ⟩ := hx a s hfirst
    have hsecond : f a s = .ok (b, t) := by
      simpa [Bind.bind, StateT.bind, hfirst, Except.bind] using heq
    obtain ⟨b', t', hsecond', hT⟩ := hf a s a' s' hQ b t hsecond
    exact ⟨b', t', by simpa [Bind.bind, StateT.bind, hfirst', Except.bind] using hsecond', hT⟩

/-- Nothing has to mirror what ends in a refusal. -/
theorem refusal_bind {p : Problem} {back : Nat} {f : α → Reader β} {x' : Except Failure (β × Reading)} :
    Mirrors T ((refuse p back >>= f) r) x' := nofun

theorem state {f f' : Reading → Reader β} (h : Mirrors T (f r r) (f' r' r')) :
    Mirrors T ((get >>= f) r) ((get >>= f') r') := h

theorem value_state {a : α} {f' : Reading → Reader α} (h : Mirrors Q ((pure a : Reader α) r) (f' r' r')) :
    Mirrors Q ((pure a : Reader α) r) ((get >>= f') r') := h

theorem update {g g' : Reading → Reading} {f f' : Unit → Reader β}
    (h : Mirrors T (f () (g r)) (f' () (g' r'))) :
    Mirrors T (((modify g : Reader Unit) >>= f) r) (((modify g' : Reader Unit) >>= f') r') := h

theorem ite {c c' : Prop} [Decidable c] [Decidable c'] {x x' y y' : Reader α} (hc : c' ↔ c)
    (hpos : c → Mirrors Q (x r) (x' r')) (hneg : ¬c → Mirrors Q (y r) (y' r')) :
    Mirrors Q ((if c then x else y) r) ((if c' then x' else y') r') := by
  by_cases h : c
  · rw [if_pos h, if_pos (hc.2 h)]
    exact hpos h
  · rw [if_neg h, if_neg (mt hc.1 h)]
    exact hneg h

/-- Two ways that go on alike. -/
theorem ite_bind {c c' : Prop} [Decidable c] [Decidable c'] {x x' y y' : Reader α} {f f' : α → Reader β} (hc : c' ↔ c)
    (hpos : c → Mirrors Q (x r) (x' r')) (hneg : ¬c → Mirrors Q (y r) (y' r'))
    (hf : ∀ a s a' s', Q a s a' s' → Mirrors T (f a s) (f' a' s')) :
    Mirrors T ((if c then x >>= f else y >>= f) r) ((if c' then x' >>= f' else y' >>= f') r') :=
  .ite hc (fun h => (hpos h).bind hf) fun h => (hneg h).bind hf

theorem mono {Q' : α → Reading → α → Reading → Prop} {x x' : Except Failure (α × Reading)}
    (h : Mirrors Q x x') (hQ : ∀ a s a' s', Q a s a' s' → Q' a s a' s') : Mirrors Q' x x' := by
  intro a s heq
  obtain ⟨a', s', heq', hq⟩ := h a s heq
  exact ⟨a', s', heq', hQ a s a' s' hq⟩

end Mirrors

/-! ## The token in front -/

theorem Reading.front_token {r : Reading} {t : Token} {left : List Char} (ht : t.Proper)
    (hr : r.chars = t.chars ++ left) : front r = some t := by
  cases t with
  | escaped c => simp [front, hr, Token.chars]
  | plain c =>
    have hc : c ≠ '\\' := fun heq => ht (by rw [heq])
    unfold front
    rw [hr, Token.chars, List.singleton_append]
    split
    next heq => cases heq
    next heq => exact absurd (List.cons.inj heq).1 hc
    next heq => exact absurd (List.cons.inj heq).1 hc
    next heq => rw [(List.cons.inj heq).1]

theorem Reading.take_token {r : Reading} {t : Token} {left : List Char} (ht : t.Proper)
    (hr : r.chars = t.chars ++ left) :
    take r = (moveOn left t.chars.length >>= fun _ => pure (some t) : Reader (Option Token)) r := by
  simp only [take, bind, StateT.bind, get, getThe, MonadStateOf.get, StateT.get, Except.bind, pure, Except.pure]
  cases t with
  | escaped c => rw [hr, Token.chars]; rfl
  | plain c =>
    have hc : c ≠ '\\' := fun heq => ht (by rw [heq])
    rw [hr, Token.chars, List.singleton_append]
    cases left with
    | nil => simp only [StateT.bind]; rfl
    | cons d left => simp [hc, StateT.bind]; rfl

theorem Reading.take_nil {r : Reading} (hr : r.chars = []) : take r = .ok (none, r) := by
  simp only [take, bind, StateT.bind, get, getThe, MonadStateOf.get, StateT.get, Except.bind, hr, pure,
    Except.pure, StateT.pure]

/-- What taking a token comes to, for two readings. -/
inductive Takes (verbose : Bool) (region : Region) (r : Reading) : Option Token → Reading → Option Token → Reading → Prop
  | nothing {s' : Reading} (hr : r.chars = []) (h : Tracks verbose region r s') :
    Takes verbose region r none r none s'
  | token {t : Token} {s s' : Reading} (ht : t.Proper) (hr : r.chars = t.chars ++ s.chars)
    (h : Tracks verbose (t.leaves region) s s') :
    Takes verbose region r (some t) s (some (t.anchored region)) s'

section
variable {verbose : Bool} {region : Region} {r r' : Reading}

namespace Tracks

/-- What is left is nothing, or starts with a token. -/
theorem token (h : Tracks verbose region r r') :
    r.chars = [] ∧ r'.chars = [] ∨ ∃ t left, Token.Proper t ∧ r.chars = t.chars ++ left ∧
      r'.chars = (t.anchored region).chars ++ anchorFrom (t.leaves region) left := by
  by_cases hnil : r.chars = []
  · exact Or.inl ⟨hnil, by rw [h.chars, hnil, anchorFrom_nil]⟩
  · obtain ⟨t, left, ht, hr⟩ := exists_token hnil h.whole
    exact Or.inr ⟨t, left, ht, hr, by rw [h.chars, hr, anchorFrom_token ht]⟩

theorem length_le (h : Tracks verbose region r r') : r.chars.length ≤ r'.chars.length := by
  rw [h.chars]
  exact length_le_anchorFrom region r.chars

theorem front_eq (h : Tracks verbose region r r') : front r' = (front r).map (·.anchored region) := by
  rcases h.token with ⟨hr, hr'⟩ | ⟨t, left, ht, hr, hr'⟩
  · rw [front, front, hr, hr']; rfl
  · rw [Reading.front_token ht hr, Reading.front_token (ht.anchored region) hr']; rfl

theorem front_cases (h : Tracks verbose region r r') :
    front r' = front r ∨ front r = some (.plain '$') ∧ front r' = some (.escaped 'Z') := by
  rw [h.front_eq]
  cases front r with
  | none => exact Or.inl rfl
  | some t =>
    rcases Token.anchored_cases region t with heq | ⟨rfl, heq⟩
    · exact Or.inl (congrArg some heq)
    · exact Or.inr ⟨rfl, congrArg some heq⟩

theorem take (h : Tracks verbose region r r') :
    Mirrors (Takes verbose region r) (Pattern.take r) (Pattern.take r') := by
  intro o s heq
  rcases h.token with ⟨hr, hr'⟩ | ⟨t, left, ht, hr, hr'⟩
  · rw [Reading.take_nil hr] at heq
    cases heq
    exact ⟨none, r', Reading.take_nil hr', .nothing hr h⟩
  · rw [Reading.take_token ht hr] at heq
    by_cases hwhole : left = ['\\']
    · simp [bind, StateT.bind, moveOn, hwhole, Except.bind] at heq
    · have hs : o = some t ∧ s = { r with chars := left, offset := r.offset + t.chars.length } := by
        simpa [bind, StateT.bind, moveOn, hwhole, Except.bind, pure, StateT.pure, Except.pure, eq_comm] using heq
      obtain ⟨rfl, rfl⟩ := hs
      refine ⟨_, { r' with
          chars := anchorFrom (t.leaves region) left
          offset := r'.offset + (t.anchored region).chars.length }, ?_, .token ht hr ?_⟩
      · rw [Reading.take_token (ht.anchored region) hr']
        simp [bind, StateT.bind, moveOn, anchorFrom_ne hwhole, Except.bind, pure, StateT.pure, Except.pure]
      · have hahead := h.ahead
        have hmembers := h.members
        rw [hr] at hahead hmembers
        exact { h with
          chars := rfl
          whole := hwhole
          ahead := inStep_token ht hahead
          members := isCalm_leaves ht hmembers }

/-- Where neither the end nor `$` is read on, the pass leaves the token that is taken as it is. -/
theorem take_refusing {α : Type} {Q : α → Reading → α → Reading → Prop} {f f' : Option Token → Reader α}
    (h : Tracks verbose region r r') (hnothing : ∀ s x', Mirrors Q (f none s) x')
    (hdollar : ∀ s x', Mirrors Q (f (some (.plain '$')) s) x')
    (htoken : ∀ t s s', r.chars = t.chars ++ s.chars → Tracks verbose (t.leaves region) s s' →
      Mirrors Q (f (some t) s) (f' (some t) s')) :
    Mirrors Q ((Pattern.take >>= f) r) ((Pattern.take >>= f') r') := by
  refine h.take.bind fun o s o' s' htakes => ?_
  cases htakes with
  | nothing _ _ => exact hnothing _ _
  | @token t s s' _ hr hs =>
    rcases Token.anchored_cases region t with heq | ⟨rfl, -⟩
    · rw [heq]
      exact htoken t s s' hr hs
    · exact hdollar _ _

/-! ## Characters -/

/-- The pass takes a neutral character for itself, wherever it stands. -/
theorem take_neutral (h : Tracks verbose region r r') {c : Char} (hc : isNeutral c)
    (hfront : front r = some (.plain c)) :
    Mirrors (fun o s o' s' => o = some (.plain c) ∧ o' = o ∧ r.chars = c :: s.chars ∧ Tracks verbose region s s')
      (Pattern.take r) (Pattern.take r') := by
  refine h.take.mono fun o s o' s' htakes => ?_
  cases htakes with
  | nothing hr _ => rw [front, hr] at hfront; cases hfront
  | token ht hr hs =>
    cases (Reading.front_token ht hr).symm.trans hfront
    exact ⟨rfl, congrArg some (Token.anchored_neutral hc), hr, Token.leaves_neutral region hc ▸ hs⟩

theorem front_neutral_iff (h : Tracks verbose region r r') {c : Char} (hc : isNeutral c) :
    front r' = some (.plain c) ↔ front r = some (.plain c) := by
  have hdollar : c ≠ '$' := by rintro rfl; cases hc
  rw [h.front_eq]
  cases front r with
  | none => exact Iff.rfl
  | some t => simp [Token.anchored_eq_plain_iff hdollar]

/-- Taking a character if it is in front, with what that tells about what is left. -/
theorem takeChar_cases (h : Tracks verbose region r r') {c : Char} (hc : isNeutral c) :
    Mirrors (fun b s b' s' => b' = b ∧ Tracks verbose region s s' ∧
        (b = true ∧ r.chars = c :: s.chars ∨ b = false ∧ s = r ∧ front r ≠ some (.plain c)))
      (takeChar c r) (takeChar c r') := by
  refine .state (.ite (h.front_neutral_iff hc) (fun hfront => ?_) fun hfront => ?_)
  · refine (h.take_neutral hc hfront).bind ?_
    rintro o s o' s' ⟨_, _, hr, hs⟩
    refine .value ⟨rfl, hs, Or.inl ⟨rfl, hr⟩⟩
  · exact .value ⟨rfl, h, Or.inr ⟨rfl, rfl, hfront⟩⟩

theorem takeChar (h : Tracks verbose region r r') {c : Char} (hc : isNeutral c) :
    Mirrors (Together verbose region) (Pattern.takeChar c r) (Pattern.takeChar c r') :=
  (h.takeChar_cases hc).mono fun _ _ _ _ hs => ⟨hs.1, hs.2.1⟩

/-- Neutral characters are taken alike, also with more rounds where these do not count. -/
theorem takeUpTo {p : Char → Bool} (hp : ∀ c, p c → isNeutral c) {n m : Nat}
    (hm : n = m ∨ r.chars.length ≤ n ∧ n ≤ m) (h : Tracks verbose region r r') :
    Mirrors (Together verbose region) (Pattern.takeUpTo p n r) (Pattern.takeUpTo p m r') := by
  induction n generalizing m r r' with
  | zero =>
    cases m with
    | zero => exact .value ⟨rfl, h⟩
    | succ m =>
      have hr : r.chars = [] := by simpa using hm
      rw [Pattern.takeUpTo, Pattern.takeUpTo]
      refine .value_state ?_
      rw [h.front_eq, front, hr]
      exact .value ⟨rfl, h⟩
  | succ n ih =>
    obtain ⟨m, rfl⟩ : ∃ k, m = k + 1 := ⟨m - 1, by omega⟩
    rw [Pattern.takeUpTo, Pattern.takeUpTo]
    refine .state ?_
    rcases h.front_cases with heq | ⟨hdollar, hend⟩
    · rw [heq]
      rcases hfront : front r with _ | c | _
      · exact .value ⟨rfl, h⟩
      · refine .ite Iff.rfl (fun hc => ?_) fun _ => .value ⟨rfl, h⟩
        refine (h.take_neutral (hp c hc) hfront).bind ?_
        rintro o s o' s' ⟨_, _, hr, hs⟩
        rw [hr, List.length_cons] at hm
        exact (ih (by omega) hs).bind fun _ _ _ _ hu => .value ⟨by rw [hu.1], hu.2⟩
      · exact .value ⟨rfl, h⟩
    · have hp : ¬p '$' := fun hc => absurd (hp _ hc) (by decide)
      simp only [hdollar, hend, if_neg hp]
      exact .value ⟨rfl, h⟩

theorem takeAll {p : Char → Bool} (hp : ∀ c, p c → isNeutral c) (h : Tracks verbose region r r') :
    Mirrors (Together verbose region) (Pattern.takeAll p r) (Pattern.takeAll p r') :=
  .state (h.takeUpTo hp (Or.inr ⟨Nat.le_refl _, h.length_le⟩))

/-! ## Names -/

theorem takeName_go {terminator : Char} {sort : String} (hterminator : isNeutral terminator) {n m : Nat} (hm : n ≤ m)
    {i : Region} {read read' : List Char} (hread : read'.isEmpty = read.isEmpty)
    (hsame : (∀ c ∈ read, isNeutral c) → read' = read ∧ i = region) (h : Tracks verbose i r r') :
    Mirrors (Names verbose region) (takeName.go terminator sort n read r) (takeName.go terminator sort m read' r') := by
  have hdollar : terminator ≠ '$' := by rintro rfl; cases hterminator
  induction n generalizing m i read read' r r' with
  | zero => exact .refusal
  | succ n ih =>
    obtain ⟨m, rfl⟩ : ∃ k, m = k + 1 := ⟨m - 1, by omega⟩
    rw [takeName.go, takeName.go]
    refine h.take.bind fun o s o' s' htakes => ?_
    cases htakes with
    | nothing _ _ => dsimp only; split <;> exact .refusal
    | @token t s s' ht hr hs =>
      refine .ite (Token.anchored_eq_plain_iff hdollar) (fun hend => ?_) fun hend => ?_
      · subst hend
        refine .ite (by rw [hread]) (fun _ => .refusal) fun _ => .value ⟨_, hs, fun hneutral => ?_⟩
        obtain ⟨rfl, rfl⟩ := hsame fun c hc => hneutral c (List.mem_reverse.2 hc)
        exact ⟨rfl, Token.leaves_neutral i hterminator⟩
      · refine ih (by omega) ?_ (fun hneutral => ?_) hs
        · cases t.anchored i <;> cases t <;> rfl
        · obtain ⟨rfl, rfl⟩ := hsame fun c hc => hneutral c (List.mem_append_right _ hc)
          obtain ⟨hanchored, hleaves⟩ := Token.neutral i (t := t) fun c hc =>
            hneutral c (List.mem_append_left _ (List.mem_reverse.2 hc))
          exact ⟨by rw [hanchored], hleaves⟩

theorem takeName {terminator : Char} {sort : String} (hterminator : isNeutral terminator)
    (h : Tracks verbose region r r') :
    Mirrors (Names verbose region) (Pattern.takeName terminator sort r) (Pattern.takeName terminator sort r') :=
  .state (h.takeName_go hterminator (Nat.succ_le_succ h.length_le) rfl fun _ => ⟨rfl, rfl⟩)

end Tracks

end

end SchemaGuard.Pattern
