/-
  SchemaGuard — numbers as places on the extended rational line.

  `Number.value?` is the exact value of a number; a NaN has none. The comparisons
  of numbers are those of their values (`lt_iff`, `le_iff`), a number is whole
  exactly if its value is an integer (`isWhole_iff`), and `normal` forms agree
  exactly if values do (`normal_eq_iff`): a double that is not whole is given by
  its value, since significands have no common power of two to spare.
-/
import Mathlib.Algebra.Order.Field.Rat
import Mathlib.Algebra.Order.Field.Power
import Mathlib.Order.WithBot
import Mathlib.Tactic.Linarith
import Mathlib.Tactic.NormNum
import Mathlib.Tactic.Positivity
import Mathlib.Tactic.Ring
import SchemaGuard.Number.Basic

namespace SchemaGuard

namespace Scaled

/-- The value of a scaled number. -/
def toRat (s : Scaled) : ℚ := s.significand * 2 ^ s.power

theorem countAt_eq (s : Scaled) (low : Int) :
    s.countAt low = s.significand * 2 ^ (s.power - low).toNat := rfl

theorem toInt?_eq (s : Scaled) : s.toInt? =
    if 0 ≤ s.power then some (s.significand * 2 ^ s.power.toNat)
    else if s.significand % 2 ^ (-s.power).toNat = 0 then
      some (s.significand / 2 ^ (-s.power).toNat)
    else none := rfl

theorem countAt_mul {s : Scaled} {low : Int} (h : low ≤ s.power) :
    (s.countAt low : ℚ) * 2 ^ low = s.toRat := by
  have hp : s.power = ((s.power - low).toNat : Int) + low := by omega
  rw [toRat, hp, zpow_add₀ two_ne_zero, zpow_natCast, countAt_eq]
  push_cast
  ring

theorem compare_eq_lt_iff {a b : Scaled} : a.compare b = .lt ↔ a.toRat < b.toRat := by
  have h2 : (0 : ℚ) < 2 ^ min a.power b.power := by positivity
  rw [compare, Int.compare_eq_lt, ← countAt_mul (Int.min_le_left a.power b.power),
    ← countAt_mul (Int.min_le_right a.power b.power), mul_lt_mul_iff_left₀ h2, Int.cast_lt]

theorem compare_eq_eq_iff {a b : Scaled} : a.compare b = .eq ↔ a.toRat = b.toRat := by
  have h2 : (2 : ℚ) ^ min a.power b.power ≠ 0 := by positivity
  rw [compare, Int.compare_eq_eq, ← countAt_mul (Int.min_le_left a.power b.power),
    ← countAt_mul (Int.min_le_right a.power b.power), mul_left_inj' h2, Int.cast_inj]

theorem toInt?_eq_some_iff {s : Scaled} {k : Int} : s.toInt? = some k ↔ s.toRat = k := by
  rw [toInt?_eq]
  split
  next h =>
    obtain ⟨n, hn⟩ := Int.eq_ofNat_of_zero_le h
    simp only [toRat, hn, Option.some.injEq, Int.toNat_natCast, zpow_natCast]
    exact_mod_cast Iff.rfl
  next h =>
    obtain ⟨n, hn⟩ : ∃ n : Nat, s.power = -n := ⟨(-s.power).toNat, by omega⟩
    have h2 : (2 : ℚ) ^ n ≠ 0 := by positivity
    have hval : s.toRat = k ↔ s.significand = k * 2 ^ n := by
      rw [toRat, hn, zpow_neg, zpow_natCast, ← div_eq_mul_inv, div_eq_iff h2]
      exact_mod_cast Iff.rfl
    rw [hval, hn, neg_neg, Int.toNat_natCast]
    split
    next hdvd =>
      have hd := Int.emod_add_mul_ediv s.significand (2 ^ n)
      rw [hdvd, zero_add] at hd
      rw [Option.some.injEq]
      constructor
      · rintro rfl; rw [mul_comm]; exact hd.symm
      · intro hk; rw [hk]; exact Int.mul_ediv_cancel _ (by positivity)
    next hdvd =>
      simp only [reduceCtorEq, false_iff]
      intro hk
      exact hdvd (by rw [hk]; exact Int.mul_emod_left _ _)

end Scaled

/-! ## Doubles -/

namespace Double

theorem significand_lt (e : Fin 2047) (f : Fin fractions) : significand e f < 2 * fractions := by
  unfold significand; split <;> omega

theorem fractions_le_significand {e : Fin 2047} (h : e.val ≠ 0) (f : Fin fractions) :
    fractions ≤ significand e f := by
  unfold significand; rw [if_neg h]; omega

/-- Of two doubles with equal magnitude neither has the smaller power. -/
theorem power_le_of_eq {e e' : Fin 2047} {f f' : Fin fractions}
    (h : (significand e f : ℚ) * 2 ^ power e = significand e' f' * 2 ^ power e') :
    power e' ≤ power e := by
  by_contra hlt
  obtain ⟨n, hn⟩ : ∃ n : Nat, power e' = ((n + 1 : Nat) : Int) + power e :=
    ⟨(power e' - power e - 1).toNat, by omega⟩
  have he' : e'.val ≠ 0 := by intro h0; unfold power at hn; omega
  rw [hn, zpow_add₀ two_ne_zero, zpow_natCast, ← mul_assoc] at h
  have hs : significand e f = significand e' f' * 2 ^ (n + 1) := by
    exact_mod_cast mul_right_cancel₀ (zpow_ne_zero _ two_ne_zero) h
  have h1 := significand_lt e f
  have h2 := fractions_le_significand he' f'
  have h3 : 2 ≤ 2 ^ (n + 1) := by rw [pow_succ]; have := Nat.one_le_two_pow (n := n); omega
  have h4 := Nat.mul_le_mul h2 h3
  omega

/-- The fields of a double are determined by its magnitude. -/
theorem fields_eq_of_magnitude_eq {e e' : Fin 2047} {f f' : Fin fractions}
    (h : (significand e f : ℚ) * 2 ^ power e = significand e' f' * 2 ^ power e') :
    e = e' ∧ f = f' := by
  have hp : power e = power e' := le_antisymm (power_le_of_eq h.symm) (power_le_of_eq h)
  rw [hp] at h
  have hs : significand e f = significand e' f' := by
    exact_mod_cast mul_right_cancel₀ (zpow_ne_zero _ two_ne_zero) h
  have hp' : max e.val 1 = max e'.val 1 := by unfold power at hp; omega
  rw [Fin.ext_iff, Fin.ext_iff]
  unfold significand at hs
  split at hs <;> split at hs <;> omega

theorem abs_toRat (n : Bool) (e : Fin 2047) (f : Fin fractions) :
    |Scaled.toRat ⟨if n then -(significand e f : Int) else significand e f, power e⟩| =
      significand e f * 2 ^ power e := by
  have h : (0 : ℚ) ≤ significand e f * 2 ^ power e := by positivity
  cases n <;> simp [Scaled.toRat, abs_of_nonneg h]

end Double

/-! ## The line -/

/-- The place of an extent on the extended line. -/
def Extent.toLine : Extent → WithBot (WithTop ℚ)
  | .below => ⊥
  | .at s => ((s.toRat : WithTop ℚ) : WithBot (WithTop ℚ))
  | .above => ((⊤ : WithTop ℚ) : WithBot (WithTop ℚ))

theorem Extent.compare_eq_lt_iff {x y : Extent} : x.compare y = .lt ↔ x.toLine < y.toLine := by
  cases x <;> cases y <;> simp [compare, toLine, Scaled.compare_eq_lt_iff]
  case at.above => exact WithBot.coe_lt_coe.2 (WithTop.coe_lt_top _)

theorem Extent.compare_eq_eq_iff {x y : Extent} : x.compare y = .eq ↔ x.toLine = y.toLine := by
  cases x <;> cases y <;> simp [compare, toLine, Scaled.compare_eq_eq_iff]

namespace Number

/-- The exact value of a number; a NaN has none. -/
def value? (n : Number) : Option (WithBot (WithTop ℚ)) := n.extent?.map Extent.toLine

theorem lt_iff {a b : Number} :
    a.lt b ↔ ∃ x y, a.value? = some x ∧ b.value? = some y ∧ x < y := by
  unfold lt compare? value?
  cases a.extent? <;> cases b.extent? <;> simp [Extent.compare_eq_lt_iff]

theorem le_iff {a b : Number} :
    a.le b ↔ ∃ x y, a.value? = some x ∧ b.value? = some y ∧ x ≤ y := by
  unfold le compare? value?
  cases a.extent? <;> cases b.extent? <;>
    simp [Extent.compare_eq_lt_iff, Extent.compare_eq_eq_iff, le_iff_lt_or_eq]

/-! ## Whole numbers and normal forms -/

theorem toInt?_eq_some_iff {d : Double} {k : Int} :
    d.toInt? = some k ↔ (Number.double d).value? = some ((k : ℚ) : WithTop ℚ) := by
  cases d with
  | finite negative e f =>
    simp [Double.toInt?, value?, extent?, Double.scaled?, Extent.toLine, Scaled.toInt?_eq_some_iff]
  | infinite negative =>
    cases negative <;> simp [Double.toInt?, Double.scaled?, value?, extent?, Extent.toLine]
  | nan label => simp [Double.toInt?, Double.scaled?, value?, extent?]

theorem value?_int (k : Int) : (Number.int k).value? = some ((k : ℚ) : WithTop ℚ) := by
  simp [value?, extent?, Extent.toLine, Scaled.toRat]

theorem isWhole_iff {n : Number} :
    n.isWhole ↔ ∃ k : Int, n.value? = some ((k : ℚ) : WithTop ℚ) := by
  cases n with
  | int k => simp [isWhole, value?_int]
  | double d => simp [isWhole, Option.isSome_iff_exists, toInt?_eq_some_iff]

theorem value?_normal (n : Number) : n.normal.value? = n.value? := by
  cases n with
  | int k => rfl
  | double d =>
    rw [normal]
    split
    next k hk => rw [value?_int, toInt?_eq_some_iff.1 hk]
    next => rfl

theorem normal_eq_int_iff {n : Number} {k : Int} :
    n.normal = .int k ↔ n.value? = some ((k : ℚ) : WithTop ℚ) := by
  cases n with
  | int l => simp [value?_int]
  | double d =>
    rw [← toInt?_eq_some_iff, normal]
    cases d.toInt? <;> simp

/-- Fractional doubles and infinities of equal value are equal. -/
theorem double_eq_of_value?_eq {d d' : Double} {x : WithBot (WithTop ℚ)} (hd : d.toInt? = none)
    (h : (Number.double d).value? = some x) (h' : (Number.double d').value? = some x) : d = d' := by
  cases d with
  | nan label => simp [value?, extent?] at h
  | infinite n =>
    cases d' with
    | nan label => simp [value?, extent?] at h'
    | infinite n' =>
      cases n <;> cases n' <;> simp [value?, extent?, Extent.toLine] at h h' ⊢ <;>
        exact absurd (h.trans h'.symm) (by decide)
    | finite n' e' f' =>
      cases n <;> simp [value?, extent?, Double.scaled?, Extent.toLine] at h h'
      · exact absurd (WithBot.coe_inj.1 (h'.trans h.symm)) (WithTop.coe_ne_top)
      · exact absurd (h'.trans h.symm) WithBot.coe_ne_bot
  | finite n e f =>
    cases d' with
    | nan label => simp [value?, extent?] at h'
    | infinite n' =>
      cases n' <;> simp [value?, extent?, Double.scaled?, Extent.toLine] at h h'
      · exact absurd (WithBot.coe_inj.1 (h.trans h'.symm)) (WithTop.coe_ne_top)
      · exact absurd (h.trans h'.symm) WithBot.coe_ne_bot
    | finite n' e' f' =>
      have hval : Scaled.toRat ⟨if n then -(Double.significand e f : Int) else Double.significand e f,
          Double.power e⟩ = Scaled.toRat ⟨if n' then -(Double.significand e' f' : Int)
            else Double.significand e' f', Double.power e'⟩ := by
        simp only [value?, extent?, Double.scaled?, Extent.toLine, Option.map_some,
          Option.some.injEq] at h h'
        exact WithTop.coe_inj.1 (WithBot.coe_inj.1 (h.trans h'.symm))
      have habs := congrArg abs hval
      rw [Double.abs_toRat, Double.abs_toRat] at habs
      obtain ⟨rfl, rfl⟩ := Double.fields_eq_of_magnitude_eq habs
      by_cases hn : n = n'
      · rw [hn]
      · -- of two opposite signs the common value is zero, which is whole
        have hz : (Double.significand e f : ℚ) * 2 ^ Double.power e = 0 := by
          cases n <;> cases n' <;> simp [Scaled.toRat] at hn hval <;> linarith
        have hm : Scaled.toRat ⟨if n then -(Double.significand e f : Int)
            else Double.significand e f, Double.power e⟩ = ((0 : Int) : ℚ) := by
          rw [Int.cast_zero, ← abs_eq_zero, Double.abs_toRat, hz]
        rw [Double.toInt?, Double.scaled?, Option.bind_some, Scaled.toInt?_eq_some_iff.2 hm] at hd
        cases hd

/-- Normal forms agree exactly if values do. -/
theorem normal_eq_iff {a b : Number} {x : WithBot (WithTop ℚ)} (ha : a.value? = some x) :
    a.normal = b.normal ↔ b.value? = some x := by
  constructor
  · intro h; rw [← value?_normal, ← h, value?_normal, ha]
  · intro hb
    cases hn : a.normal with
    | int k =>
      rw [normal_eq_int_iff] at hn
      exact (normal_eq_int_iff.2 (hb.trans (ha.symm.trans hn))).symm
    | double d =>
      cases hm : b.normal with
      | int k =>
        rw [normal_eq_int_iff] at hm
        have := normal_eq_int_iff.2 (ha.trans (hb.symm.trans hm))
        rw [hn] at this; cases this
      | double d' =>
        have hd : d.toInt? = none := by
          have := normal_normal a
          rw [hn, normal] at this
          cases ht : d.toInt? with
          | none => rfl
          | some k => rw [ht] at this; cases this
        rw [← value?_normal, hn] at ha
        rw [← value?_normal, hm] at hb
        rw [double_eq_of_value?_eq hd ha hb]

end Number

end SchemaGuard
