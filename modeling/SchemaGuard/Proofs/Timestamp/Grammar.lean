/-
  SchemaGuard — the date-time format as a grammar.

  `Timestamp.IsWritten` describes the texts that a UTC date-time can be written as,
  from the numbers in it; `isDateTime_iff`: the check reads exactly these texts.
  `isDateTime_iff_exists_written` says the same with padded numbers and a calendar given
  by the lengths of the months.
-/
import Mathlib.Data.List.Induction
import Mathlib.Tactic.IntervalCases
import SchemaGuard.Timestamp

namespace SchemaGuard.Timestamp

/-! ## Digits -/

/-- A number in exactly so many digits. -/
def digits : (width n : Nat) → List Char
  | 0, _ => []
  | width + 1, n => digits width (n / 10) ++ [Nat.digitChar (n % 10)]

theorem digitChar_of_isDigit {c : Char} (h : c.isDigit) :
    Nat.digitChar (c.toNat - 48) = c ∧ c.toNat - 48 < 10 := by
  have hc : Char.ofNat c.toNat = c := Char.ofNat_toNat c
  obtain ⟨hl, hu⟩ : 48 ≤ c.toNat ∧ c.toNat ≤ 57 := by
    simp only [Char.isDigit, Bool.and_eq_true, decide_eq_true_eq, ge_iff_le,
      UInt32.le_iff_toNat_le] at h
    exact h
  generalize c.toNat = n at hc hl hu ⊢
  subst hc
  interval_cases n <;> decide

theorem isDigit_digitChar {n : Nat} (h : n < 10) :
    (Nat.digitChar n).isDigit ∧ (Nat.digitChar n).toNat - 48 = n := by
  interval_cases n <;> decide

theorem number_append (cs : List Char) (c : Char) :
    number (cs ++ [c]) = 10 * number cs + (c.toNat - 48) := by
  simp [number]

/-- Digits are the writing of the number they stand for. -/
theorem digits_number {cs : List Char} (h : ∀ c ∈ cs, c.isDigit) :
    digits cs.length (number cs) = cs ∧ number cs < 10 ^ cs.length := by
  induction cs using List.reverseRecOn with
  | nil => simp [digits, number]
  | append_singleton cs c ih =>
    obtain ⟨hdigits, hlt⟩ := ih fun c hc => h c (by simp [hc])
    obtain ⟨hchar, hten⟩ := digitChar_of_isDigit (h c (by simp))
    rw [number_append, List.length_append, List.length_singleton, digits]
    have hquot : (10 * number cs + (c.toNat - 48)) / 10 = number cs := by omega
    have hrem : (10 * number cs + (c.toNat - 48)) % 10 = c.toNat - 48 := by omega
    rw [hquot, hrem, hdigits, hchar, pow_succ]
    exact ⟨rfl, by omega⟩

/-- A number that fits is read back from its digits. -/
theorem number_digits {width n : Nat} (h : n < 10 ^ width) :
    number (digits width n) = n ∧ ∀ c ∈ digits width n, c.isDigit := by
  induction width generalizing n with
  | zero => simp_all [digits, number]
  | succ width ih =>
    rw [pow_succ] at h
    obtain ⟨hnumber, hall⟩ := ih (n := n / 10) (by omega)
    obtain ⟨hdigit, hchar⟩ := isDigit_digitChar (n := n % 10) (by omega)
    rw [digits, number_append, hnumber, hchar]
    refine ⟨by omega, fun c hc => ?_⟩
    rcases List.mem_append.1 hc with hc | hc
    · exact hall c hc
    · rw [List.mem_singleton.1 hc]; exact hdigit

/-! ## Texts -/

/-- What may stand between the seconds and `Z`: nothing, or a point and digits. -/
def IsFraction (cs : List Char) : Prop :=
  cs = [] ∨ ∃ f, f ≠ [] ∧ (∀ c ∈ f, c.isDigit) ∧ cs = '.' :: f

theorem isEnding_iff {cs : List Char} :
    isEnding cs ↔ ∃ fraction, IsFraction fraction ∧ cs = fraction ++ ['Z'] := by
  constructor
  · intro h
    unfold isEnding at h
    split at h
    next => exact ⟨[], Or.inl rfl, rfl⟩
    next cs =>
      simp only [Bool.and_eq_true, Bool.not_eq_true', List.isEmpty_eq_false_iff, beq_iff_eq] at h
      refine ⟨'.' :: cs.takeWhile Char.isDigit, Or.inr ⟨_, h.1, fun c hc => ?_, rfl⟩, ?_⟩
      · exact List.all_eq_true.1 List.all_takeWhile c hc
      · rw [List.cons_append, ← h.2, List.takeWhile_append_dropWhile]
    next => cases h
  · rintro ⟨fraction, rfl | ⟨f, hne, hf, rfl⟩, rfl⟩
    · rfl
    · rw [List.cons_append, isEnding]
      have htake : (f ++ ['Z']).takeWhile Char.isDigit = f := by
        rw [List.takeWhile_append_of_pos hf]; simp
      have hdrop : (f ++ ['Z']).dropWhile Char.isDigit = ['Z'] := by
        rw [List.dropWhile_append_of_pos hf]; simp
      rw [htake, hdrop]
      simp [hne]

theorem daysInMonth_le (year month : Nat) : daysInMonth year month ≤ 31 := by
  unfold daysInMonth
  split <;> (try split) <;> omega

/-- A text that a UTC date-time can be written as. -/
def IsWritten (text : String) : Prop :=
  ∃ year month day hour minute second fraction,
    1 ≤ year ∧ year ≤ 9999 ∧ 1 ≤ month ∧ month ≤ 12 ∧ 1 ≤ day ∧ day ≤ daysInMonth year month ∧
      hour < 24 ∧ minute < 60 ∧ second < 60 ∧ IsFraction fraction ∧
      text.toList = digits 4 year ++ '-' :: (digits 2 month ++ '-' :: (digits 2 day ++ 'T' ::
        (digits 2 hour ++ ':' :: (digits 2 minute ++ ':' :: (digits 2 second ++
          (fraction ++ ['Z']))))))

/-- The check reads exactly the written date-times. -/
theorem isDateTime_iff {text : String} : isDateTime text ↔ IsWritten text := by
  constructor
  · intro h
    unfold isDateTime at h
    split at h
    next m hm =>
      rw [decide_eq_true_eq] at h
      unfold fields? at hm
      split at hm
      next y₁ y₂ y₃ y₄ m₁ m₂ d₁ d₂ h₁ h₂ n₁ n₂ s₁ s₂ ending htext =>
        split at hm
        next hcond =>
          cases hm
          rw [Bool.and_eq_true, List.all_eq_true] at hcond
          obtain ⟨hdigits, hending⟩ := hcond
          obtain ⟨fraction, hfraction, rfl⟩ := isEnding_iff.1 hending
          have hmonth := h.1.month_le
          obtain ⟨⟨hy, hy', hd, hd'⟩, hh, hn, hs, -, -⟩ := h
          have hread (cs : List Char) (h : cs ⊆ [y₁, y₂, y₃, y₄, m₁, m₂, d₁, d₂, h₁, h₂, n₁, n₂, s₁, s₂]) :
              digits cs.length (number cs) = cs := (digits_number fun c hc => hdigits c (h hc)).1
          have hyear : digits 4 (number [y₁, y₂, y₃, y₄]) = _ := hread [y₁, y₂, y₃, y₄] (by simp)
          have htwo (a b : Char) (h : [a, b] ⊆ [y₁, y₂, y₃, y₄, m₁, m₂, d₁, d₂, h₁, h₂, n₁, n₂, s₁, s₂]) :
              digits 2 (number [a, b]) = [a, b] := hread [a, b] h
          refine ⟨number [y₁, y₂, y₃, y₄], number [m₁, m₂], number [d₁, d₂], number [h₁, h₂],
            number [n₁, n₂], number [s₁, s₂], fraction, hy, hy', hmonth.1, hmonth.2, hd, hd', hh, hn,
            hs, hfraction, ?_⟩
          rw [htext, hyear, htwo m₁ m₂ (by simp), htwo d₁ d₂ (by simp), htwo h₁ h₂ (by simp),
            htwo n₁ n₂ (by simp), htwo s₁ s₂ (by simp)]
          rfl
        next => cases hm
      next => cases hm
    next => cases h
  · rintro ⟨year, month, day, hour, minute, second, fraction, hy, hy', hm, hm', hd, hd', hh, hn, hs,
      hfraction, htext⟩
    have hfields : fields? text.toList =
        some ⟨⟨year, month, day⟩, hour, minute, second, 0, some 0⟩ := by
      have hday : day < 10 ^ 2 := by have := daysInMonth_le year month; omega
      obtain ⟨hY, hYs⟩ := number_digits (show year < 10 ^ 4 by omega)
      obtain ⟨hM, hMs⟩ := number_digits (show month < 10 ^ 2 by omega)
      obtain ⟨hD, hDs⟩ := number_digits hday
      obtain ⟨hH, hHs⟩ := number_digits (show hour < 10 ^ 2 by omega)
      obtain ⟨hN, hNs⟩ := number_digits (show minute < 10 ^ 2 by omega)
      obtain ⟨hS, hSs⟩ := number_digits (show second < 10 ^ 2 by omega)
      have hending : isEnding (fraction ++ ['Z']) := isEnding_iff.2 ⟨fraction, hfraction, rfl⟩
      simp only [digits, List.nil_append, List.cons_append, List.forall_mem_cons, List.not_mem_nil,
        false_imp_iff, implies_true, and_true] at htext hY hYs hM hMs hD hDs hH hHs hN hNs hS hSs
      rw [htext]
      simp only [fields?, List.all_cons, List.all_nil, hYs, hMs, hDs, hHs, hNs, hSs, hending, hY, hM, hD,
        hH, hN, hS, Bool.and_self, if_true]
    rw [isDateTime, hfields]
    exact decide_eq_true ⟨⟨hy, hy', hd, hd'⟩, hh, hn, hs, by simp, by simp⟩

/-! ## Padded numbers -/

theorem toDigits_ten {n : Nat} (h : 10 ≤ n) :
    Nat.toDigits 10 n = Nat.toDigits 10 (n / 10) ++ [Nat.digitChar (n % 10)] := by
  have hrem : n % 10 < 10 := Nat.mod_lt _ (by decide)
  rw [← Nat.toDigits_of_lt_base hrem, Nat.toDigits_append_toDigits (by decide) (by omega) hrem, Nat.div_add_mod]

theorem digits_zero (width : Nat) : digits width 0 = List.replicate width '0' := by
  induction width with
  | zero => rfl
  | succ width ih => rw [digits, Nat.zero_div, ih, List.replicate_succ']; rfl

/-- A number that fits is written by zeros and its digits. -/
theorem digits_eq_replicate {width n : Nat} (h : n < 10 ^ (width + 1)) : digits (width + 1) n =
    List.replicate (width + 1 - (Nat.toDigits 10 n).length) '0' ++ Nat.toDigits 10 n := by
  induction width generalizing n with
  | zero =>
    have hten : n < 10 := h
    rw [digits, Nat.mod_eq_of_lt hten, Nat.toDigits_of_lt_base hten]; rfl
  | succ width ih =>
    rw [pow_succ] at h
    rw [digits]
    by_cases hten : n < 10
    · rw [Nat.toDigits_of_lt_base hten, Nat.div_eq_of_lt hten, Nat.mod_eq_of_lt hten, digits_zero]
      rfl
    · rw [ih (by omega), toDigits_ten (n := n) (by omega), List.length_append, List.length_singleton,
        Nat.add_sub_add_right, List.append_assoc]

theorem toList_padded {width n : Nat} (h : n < 10 ^ (width + 1)) : (padded (width + 1) n).toList = digits (width + 1) n := by
  rw [digits_eq_replicate h, padded, String.toList_append, String.toList_ofList, Nat.toString_eq_ofList_toDigits,
    String.toList_ofList, String.length_ofList]

/-! ## The calendar -/

/-- The days of the months, when February is short. -/
def monthLengths : List Nat := [31, 28, 31, 30, 31, 30, 31, 31, 30, 31, 30, 31]

/-- Every fourth year has a long February, though of the full centuries only those that four hundred divides. -/
def IsLeap (year : Nat) : Prop := 4 ∣ year ∧ (100 ∣ year → 400 ∣ year)

instance (year : Nat) : Decidable (IsLeap year) := inferInstanceAs (Decidable (_ ∧ _))

/-- The Gregorian number of days of a month from 1 to 12. -/
def gregorianDays (year month : Nat) : Nat :=
  monthLengths.getD (month - 1) 0 + if month = 2 ∧ IsLeap year then 1 else 0

theorem isLeapYear_iff {year : Nat} : isLeapYear year ↔ IsLeap year := by
  simp only [isLeapYear, IsLeap, Bool.and_eq_true, Bool.or_eq_true, bne_iff_ne, beq_iff_eq, Nat.dvd_iff_mod_eq_zero]
  omega

theorem daysInMonth_eq_gregorianDays {year month : Nat} (h : 1 ≤ month) (h' : month ≤ 12) :
    daysInMonth year month = gregorianDays year month := by
  unfold gregorianDays
  interval_cases month
  case «2» =>
    rw [daysInMonth]
    by_cases hleap : IsLeap year
    · rw [if_pos (isLeapYear_iff.2 hleap), if_pos ⟨rfl, hleap⟩]; rfl
    · rw [if_neg (mt isLeapYear_iff.1 hleap), if_neg fun h => hleap h.2]; rfl
  all_goals rfl

/-! ## Exactness -/

/-- A date-time as it is written, with everything behind the seconds but `Z` in `fraction`. -/
def written (date : Date) (hour minute second : Nat) (fraction : String) : String :=
  date.text ++ "T" ++ padded 2 hour ++ ":" ++ padded 2 minute ++ ":" ++ padded 2 second ++ fraction ++ "Z"

/-- No fraction, or a point and ASCII digits. -/
def IsFractionText (fraction : String) : Prop :=
  fraction = "" ∨ ∃ f : String, f ≠ "" ∧ (∀ c ∈ f.toList, '0' ≤ c ∧ c ≤ '9') ∧ fraction = "." ++ f

theorem isDigit_iff {c : Char} : c.isDigit ↔ '0' ≤ c ∧ c ≤ '9' := by
  simp only [Char.isDigit, Bool.and_eq_true, decide_eq_true_eq, ge_iff_le, Char.le_def]

theorem isFraction_iff {fraction : String} : IsFraction fraction.toList ↔ IsFractionText fraction := by
  rw [IsFraction, IsFractionText, String.toList_eq_nil_iff]
  refine or_congr Iff.rfl ⟨?_, ?_⟩
  · rintro ⟨f, hne, hdigits, heq⟩
    refine ⟨String.ofList f, ?_, fun c hc => isDigit_iff.1 (hdigits c ?_), ?_⟩
    · rwa [Ne, ← String.toList_eq_nil_iff, String.toList_ofList]
    · rwa [String.toList_ofList] at hc
    · rw [← String.toList_inj, heq, String.toList_append, String.toList_ofList]
      simp
  · rintro ⟨f, hne, hdigits, rfl⟩
    refine ⟨f.toList, mt String.toList_eq_nil_iff.1 hne, fun c hc => isDigit_iff.2 (hdigits c hc), ?_⟩
    rw [String.toList_append]; rfl

theorem toList_written {year month day hour minute second : Nat} (fraction : String) (hy : year ≤ 9999)
    (hm : month < 100) (hd : day < 100) (hh : hour < 100) (hn : minute < 100) (hs : second < 100) :
    (written ⟨year, month, day⟩ hour minute second fraction).toList =
      digits 4 year ++ '-' :: (digits 2 month ++ '-' :: (digits 2 day ++ 'T' ::
        (digits 2 hour ++ ':' :: (digits 2 minute ++ ':' :: (digits 2 second ++ (fraction.toList ++ ['Z'])))))) := by
  have hyear : (padded 4 year).toList = digits 4 year := toList_padded (by omega)
  have htwo {n : Nat} (h : n < 100) : (padded 2 n).toList = digits 2 n := toList_padded h
  simp only [written, Date.text, String.toList_append, hyear, htwo hm, htwo hd, htwo hh, htwo hn, htwo hs]
  simp

theorem isWritten_iff {text : String} : IsWritten text ↔ ∃ year month day hour minute second fraction,
    (1 ≤ year ∧ year ≤ 9999) ∧ (1 ≤ month ∧ month ≤ 12) ∧ (1 ≤ day ∧ day ≤ gregorianDays year month) ∧
      hour ≤ 23 ∧ minute ≤ 59 ∧ second ≤ 59 ∧ IsFractionText fraction ∧
      text = written ⟨year, month, day⟩ hour minute second fraction := by
  constructor
  · rintro ⟨year, month, day, hour, minute, second, fraction, hy, hy', hm, hm', hd, hd', hh, hn, hs, hfraction, htext⟩
    have hday := daysInMonth_le year month
    rw [daysInMonth_eq_gregorianDays hm hm'] at hday hd'
    refine ⟨year, month, day, hour, minute, second, String.ofList fraction, ⟨hy, hy'⟩, ⟨hm, hm'⟩, ⟨hd, hd'⟩,
      by omega, by omega, by omega, isFraction_iff.1 ?_, ?_⟩
    · rwa [String.toList_ofList]
    · rw [← String.toList_inj, htext, toList_written _ hy' (by omega) (by omega) (by omega) (by omega) (by omega),
        String.toList_ofList]
  · rintro ⟨year, month, day, hour, minute, second, fraction, ⟨hy, hy'⟩, ⟨hm, hm'⟩, ⟨hd, hd'⟩, hh, hn, hs, hfraction, rfl⟩
    have hday := daysInMonth_le year month
    rw [← daysInMonth_eq_gregorianDays hm hm'] at hd'
    exact ⟨year, month, day, hour, minute, second, fraction.toList, hy, hy', hm, hm', hd, hd', by omega, by omega,
      by omega, isFraction_iff.2 hfraction,
      toList_written _ hy' (by omega) (by omega) (by omega) (by omega) (by omega)⟩

/-- The characters of date-times: ASCII digits and five others. -/
def IsPlainChar (c : Char) : Prop := ('0' ≤ c ∧ c ≤ '9') ∨ c ∈ ['-', 'T', ':', '.', 'Z']

instance (c : Char) : Decidable (IsPlainChar c) := inferInstanceAs (Decidable (_ ∨ _))

/-- A text without what date-times never have: other characters, an end other than `Z`, the year 0 and a second 60. -/
structure IsPlainText (text : String) : Prop where
  chars : ∀ c ∈ text.toList, IsPlainChar c
  ending : text.toList.getLast? = some 'Z'
  year : text.toList.take 4 ≠ ['0', '0', '0', '0']
  second : (text.toList.drop 17).take 2 ≠ ['6', '0']

theorem IsFraction.isPlainChar {fraction : List Char} (h : IsFraction fraction) : ∀ c ∈ fraction, IsPlainChar c := by
  rcases h with rfl | ⟨f, -, hf, rfl⟩
  · exact nofun
  · exact List.forall_mem_cons.2 ⟨by decide, fun c hc => Or.inl (isDigit_iff.1 (hf c hc))⟩

theorem IsWritten.isPlainText {text : String} (h : IsWritten text) : IsPlainText text := by
  obtain ⟨year, month, day, hour, minute, second, fraction, hy, hy', hm, hm', hd, hd', hh, hn, hs, hfraction, htext⟩ := h
  have hyear : number (digits 4 year) = year := (number_digits (by omega)).1
  have hsecond : number (digits 2 second) = second := (number_digits (by omega)).1
  have hday := daysInMonth_le year month
  refine ⟨?_, ?_, ?_, ?_⟩
  · have hdigits {width n : Nat} (h : n < 10 ^ width) : ∀ c ∈ digits width n, IsPlainChar c :=
      fun c hc => Or.inl (isDigit_iff.1 ((number_digits h).2 c hc))
    simp only [htext, List.forall_mem_append, List.forall_mem_cons]
    exact ⟨hdigits (by omega), by decide, hdigits (by omega), by decide, hdigits (by omega), by decide,
      hdigits (by omega), by decide, hdigits (by omega), by decide, hdigits (by omega), hfraction.isPlainChar,
      by decide, nofun⟩
  · rw [htext]
    simp [List.getLast?_append, List.getLast?_cons]
  · rw [htext]
    intro heq
    have hzero : digits 4 year = ['0', '0', '0', '0'] := heq
    rw [hzero, show number ['0', '0', '0', '0'] = 0 from rfl] at hyear
    omega
  · rw [htext]
    intro heq
    have hsixty : digits 2 second = ['6', '0'] := heq
    rw [hsixty, show number ['6', '0'] = 60 from rfl] at hsecond
    omega

/-- The check accepts exactly the written date-times of the calendar. -/
theorem isDateTime_iff_exists_written (text : String) :
    (isDateTime text ↔ ∃ year month day hour minute second fraction,
      (1 ≤ year ∧ year ≤ 9999) ∧ (1 ≤ month ∧ month ≤ 12) ∧ (1 ≤ day ∧ day ≤ gregorianDays year month) ∧
        hour ≤ 23 ∧ minute ≤ 59 ∧ second ≤ 59 ∧ IsFractionText fraction ∧
        text = written ⟨year, month, day⟩ hour minute second fraction) ∧
      (isDateTime text → IsPlainText text) :=
  ⟨isDateTime_iff.trans isWritten_iff, fun h => (isDateTime_iff.1 h).isPlainText⟩

example : isDateTime "2000-02-29T23:59:59.5Z" ∧ ¬isDateTime "1900-02-29T23:59:59.5Z" := by decide

end SchemaGuard.Timestamp
