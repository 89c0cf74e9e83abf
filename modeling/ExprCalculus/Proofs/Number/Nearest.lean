import ExprCalculus.Decimal.Magnitude
import ExprCalculus.Proofs.Number.Rounding

/-!
# Rounding to the nearest number

A mantissa with its two residual bits approximates the rational that is being rounded, and shifting it
keeps that. Rounding therefore gives the number in whose interval the rational lies. One step needs
care: just below a power of two the mantissa is rounded at half the unit of the result and carries.
-/

namespace ExprCalculus

open Float.Model UnpackedFloat

/-! ### Approximations -/

/-- The mantissa is the whole part of the number, and the bits say how the rest compares with zero and a
half. -/
def Approximates : ExtendedMantissa → ℚ → Prop
  | ⟨m, false, false⟩, t => t = m
  | ⟨m, false, true⟩, t => m < t ∧ t < m + 1 / 2
  | ⟨m, true, false⟩, t => t = m + 1 / 2
  | ⟨m, true, true⟩, t => m + 1 / 2 < t ∧ t < m + 1

theorem approximates_exact (m : Nat) : Approximates (.ofMantissaAndAccuracy m .exact) m := rfl

theorem Approximates.floor {em : ExtendedMantissa} {t : ℚ} (h : Approximates em t) :
    (em.mantissa : ℚ) ≤ t ∧ t < em.mantissa + 1 := by
  obtain ⟨m, r, s⟩ := em
  cases r <;> cases s <;> simp only [Approximates] at h ⊢ <;> constructor <;> linarith

theorem Approximates.shiftRightOne {em : ExtendedMantissa} {t : ℚ} (h : Approximates em t) :
    Approximates em.shiftRightOne (t / 2) := by
  obtain ⟨m, r, s⟩ := em
  have hsplit : (m : ℚ) = 2 * (m / 2 : Nat) + (m % 2 : Nat) := by
    exact_mod_cast (Nat.div_add_mod m 2).symm
  rcases Nat.mod_two_eq_zero_or_one m with hbit | hbit
  · -- The dropped bit is 0, so the new rest is below a half.
    rw [hbit, Nat.cast_zero, add_zero] at hsplit
    cases r <;> cases s <;>
      simp only [ExtendedMantissa.shiftRightOne, hbit, bne_self_eq_false, Bool.or_false, Bool.or_true,
        Approximates] at h ⊢
    · linarith
    · constructor <;> linarith
    · constructor <;> linarith
    · constructor <;> linarith
  · have hodd : (1 != 0) = true := rfl
    rw [hbit, Nat.cast_one] at hsplit
    cases r <;> cases s <;>
      simp only [ExtendedMantissa.shiftRightOne, hbit, hodd, Bool.or_false, Bool.or_true,
        Approximates] at h ⊢
    · linarith
    · constructor <;> linarith
    · constructor <;> linarith
    · constructor <;> linarith

theorem Approximates.shiftRight {em : ExtendedMantissa} {t : ℚ} (h : Approximates em t) (k : Nat) :
    Approximates (em >>> k) (t / 2 ^ k) := by
  induction k with
  | zero => simpa [HShiftRight.hShiftRight, Nat.repeat] using h
  | succ k ih =>
    have hstep : em >>> (k + 1) = (em >>> k).shiftRightOne := rfl
    rw [hstep, pow_succ, ← div_div]
    exact ih.shiftRightOne

/-- Within half a unit, a tie going to an even number. -/
structure IsNearest (n : Nat) (t : ℚ) : Prop where
  ge : (n : ℚ) - 1 / 2 ≤ t
  le : t ≤ n + 1 / 2
  even : t = n - 1 / 2 ∨ t = n + 1 / 2 → n % 2 = 0

theorem Approximates.roundedMantissa_eq {em : ExtendedMantissa} {t : ℚ} {n : Nat}
    (h : Approximates em t) (hn : IsNearest n t) : em.roundedMantissa = n := by
  obtain ⟨m, r, s⟩ := em
  obtain ⟨hge, hle, heven⟩ := hn
  cases r <;> cases s <;> simp only [Approximates] at h
  · have h1 : (m : ℚ) < n + 1 := by linarith
    have h2 : (n : ℚ) < m + 1 := by linarith
    norm_cast at h1 h2
    show m = n
    omega
  · have h1 : (m : ℚ) < n + 1 := by linarith
    have h2 : (n : ℚ) < m + 1 := by linarith
    norm_cast at h1 h2
    show m = n
    omega
  · have h1 : (m : ℚ) ≤ n := by linarith
    have h2 : (n : ℚ) ≤ m + 1 := by linarith
    norm_cast at h1 h2
    show m + m % 2 = n
    rcases (by omega : n = m ∨ n = m + 1) with rfl | rfl
    · have heven' := heven (.inr h)
      omega
    · have hlower : t = ((m + 1 : Nat) : ℚ) - 1 / 2 := by
        push_cast
        linarith
      have heven' := heven (.inl hlower)
      omega
  · have h1 : (m : ℚ) < n := by linarith
    have h2 : (n : ℚ) < m + 2 := by linarith
    norm_cast at h1 h2
    show m + 1 = n
    omega

/-! ### Rounding intervals -/

/-- Whether a rational lies in the interval. -/
def RoundingInterval.Contains (i : RoundingInterval) (q : ℚ) : Prop :=
  if i.closed then i.low * 2 ^ i.exponent ≤ q ∧ q ≤ i.high * 2 ^ i.exponent
  else i.low * 2 ^ i.exponent < q ∧ q < i.high * 2 ^ i.exponent

theorem RoundingInterval.contains_mul_iff {i : RoundingInterval} {u : ℚ} :
    i.Contains (u * 2 ^ i.exponent) ↔
      if i.closed then i.low ≤ u ∧ u ≤ i.high else i.low < u ∧ u < i.high := by
  have hpos : (0 : ℚ) < 2 ^ i.exponent := zpow_pos (by norm_num) _
  simp only [Contains, mul_le_mul_iff_left₀ hpos, mul_lt_mul_iff_left₀ hpos]

section Interval

variable {m : Nat} {e : Int} {q : ℚ}

/-- In units of `2 ^ e`, the interval ends half a unit above its number and half or a quarter of one below. -/
theorem contains_interval_iff (hm : 0 < m) :
    (Magnitude.mk m e).interval.Contains q ↔
      let low : ℚ := m - if m = 2 ^ 52 ∧ -1074 < e then 1 / 4 else 1 / 2
      if m % 2 = 0 then low ≤ q / 2 ^ e ∧ q / 2 ^ e ≤ m + 1 / 2
      else low < q / 2 ^ e ∧ q / 2 ^ e < m + 1 / 2 := by
  have hpos : (0 : ℚ) < 2 ^ e := zpow_pos (by norm_num) e
  have hunit : (2 : ℚ) ^ (e - 2) = 2 ^ e / 4 := by
    rw [zpow_sub₀ (by norm_num)]
    norm_num
  have hq : q = 4 * (q / 2 ^ e) * 2 ^ (Magnitude.mk m e).interval.exponent := by
    show q = 4 * (q / 2 ^ e) * 2 ^ (e - 2)
    rw [hunit]
    field_simp
  have hbelow : (if m = 2 ^ 52 ∧ -1074 < e then 1 else 2) ≤ 4 * m := by split_ifs <;> omega
  have hlow : ((Magnitude.mk m e).interval.low : ℚ) = 4 * m - if m = 2 ^ 52 ∧ -1074 < e then 1 else 2 := by
    have heq : (Magnitude.mk m e).interval.low = 4 * m - if m = 2 ^ 52 ∧ -1074 < e then 1 else 2 := rfl
    rw [heq, Nat.cast_sub hbelow]
    push_cast
    rfl
  have hhigh : ((Magnitude.mk m e).interval.high : ℚ) = 4 * m + 2 := by
    have heq : (Magnitude.mk m e).interval.high = 4 * m + 2 := rfl
    rw [heq]
    push_cast
    rfl
  have hclosed : (Magnitude.mk m e).interval.closed = decide (m % 2 = 0) := rfl
  conv_lhs => rw [hq]
  rw [RoundingInterval.contains_mul_iff, hlow, hhigh, hclosed]
  simp only [decide_eq_true_eq]
  by_cases heven : m % 2 = 0
  · simp only [heven, if_true]
    refine and_congr ?_ ?_
    · split_ifs <;> constructor <;> intro h <;> linarith
    · constructor <;> intro h <;> linarith
  · simp only [heven, if_false]
    refine and_congr ?_ ?_
    · split_ifs <;> constructor <;> intro h <;> linarith
    · constructor <;> intro h <;> linarith

/-- The interval holds the numbers to which its own number is the nearest. -/
theorem isNearest_of_contains (hm : 0 < m) (hq : (Magnitude.mk m e).interval.Contains q) :
    IsNearest m (q / 2 ^ e) := by
  rw [contains_interval_iff hm] at hq
  have hquarter : (if m = 2 ^ 52 ∧ -1074 < e then 1 / 4 else 1 / 2 : ℚ) ≤ 1 / 2 := by
    split_ifs <;> norm_num
  by_cases heven : m % 2 = 0
  · simp only [heven, if_true] at hq
    exact ⟨by linarith [hq.1], hq.2, fun _ => heven⟩
  · simp only [heven, if_false] at hq
    refine ⟨by linarith [hq.1], hq.2.le, ?_⟩
    rintro (htie | htie)
    · linarith [hq.1]
    · linarith [hq.2]

/-- Below a power of two the interval ends after a quarter of a unit. -/
theorem above_of_contains (he : -1074 < e) (hq : (Magnitude.mk (2 ^ 52) e).interval.Contains q) :
    (2 ^ 52 - 1 / 4 : ℚ) ≤ q / 2 ^ e := by
  rw [contains_interval_iff (by decide)] at hq
  have heven : 2 ^ 52 % 2 = 0 := by decide
  simp only [heven, if_true, he, and_self] at hq
  have hlow := hq.1
  push_cast at hlow
  exact hlow

end Interval

/-! ### One rounding -/

theorem lt_of_two_zpow {a b : Int} {q : ℚ} (ha : 2 ^ a ≤ q) (hb : q < 2 ^ b) : a < b :=
  (zpow_lt_zpow_iff_right₀ (by norm_num)).1 (ha.trans_lt hb)

theorem totalExponent_bounds {m : Nat} (hm : m ≠ 0) (e : Int) {t : ℚ} (hle : m ≤ t) (hlt : t < m + 1) :
    (2 : ℚ) ^ (totalExponent m e - 1) ≤ t * 2 ^ e ∧ t * 2 ^ e < 2 ^ totalExponent m e := by
  have hpos : (0 : ℚ) < 2 ^ e := zpow_pos (by norm_num) e
  have hlow : ((2 ^ m.log2 : Nat) : ℚ) ≤ m := by exact_mod_cast Nat.log2_self_le hm
  have hhigh : (m : ℚ) + 1 ≤ (2 ^ (m.log2 + 1) : Nat) := by exact_mod_cast Nat.lt_log2_self
  have hsub : (2 : ℚ) ^ (totalExponent m e - 1) = (2 ^ m.log2 : Nat) * 2 ^ e := by
    rw [totalExponent, show (m.log2 + 1 + e - 1 : Int) = m.log2 + e by omega, zpow_add₀ (by norm_num),
      zpow_natCast]
    push_cast
    rfl
  have htotal : (2 : ℚ) ^ totalExponent m e = (2 ^ (m.log2 + 1) : Nat) * 2 ^ e := by
    rw [totalExponent, show (m.log2 + 1 + e : Int) = ((m.log2 + 1 : Nat) : Int) + e by omega,
      zpow_add₀ (by norm_num), zpow_natCast]
    push_cast
    rfl
  rw [hsub, htotal]
  constructor
  · exact mul_le_mul_of_nonneg_right (hlow.trans hle) hpos.le
  · exact mul_lt_mul_of_pos_right (hlt.trans_le hhigh) hpos

theorem lt_two_zpow_of_ratio {q : ℚ} {e : Int} {k : Nat} (h : q / 2 ^ e < 2 ^ k) : q < 2 ^ (k + e) := by
  have hunit : (0 : ℚ) < 2 ^ e := zpow_pos (by norm_num) e
  rw [zpow_add₀ (by norm_num), zpow_natCast]
  exact (div_lt_iff₀ hunit).1 h

theorem two_zpow_le_of_ratio {q : ℚ} {e : Int} {k : Nat} (h : 2 ^ k ≤ q / 2 ^ e) : 2 ^ (k + e) ≤ q := by
  have hunit : (0 : ℚ) < 2 ^ e := zpow_pos (by norm_num) e
  rw [zpow_add₀ (by norm_num), zpow_natCast]
  exact (le_div_iff₀ hunit).1 h

section Rounding

variable {m : Nat} {e : Int} {q : ℚ} {n : Nat} {x : Int} {t : ℚ}

/-- Only an interval at the least exponent reaches below the least unit. -/
theorem exponent_eq_of_lt (h : Canonical m e) (hq : (Magnitude.mk m e).interval.Contains q)
    (hlt : q < 2 ^ (-1074 : Int)) : e = -1074 := by
  rcases h.normal with hnormal | he
  · have hlower := (isNearest_of_contains h.pos hq).ge
    have hmle : (2 : ℚ) ^ 52 ≤ m := by exact_mod_cast hnormal
    have hpow : (2 : ℚ) ^ 51 ≤ q / 2 ^ e := by linarith
    have hexp := lt_of_two_zpow (two_zpow_le_of_ratio hpow) hlt
    have hleast := h.least
    omega
  · exact he

theorem target_of_contains (h : Canonical m e) (hq : (Magnitude.mk m e).interval.Contains q) {total : Int}
    (hbelow : 2 ^ (total - 1) ≤ q) (habove : q < 2 ^ total) :
    max (total - 53) (-1074) = e ∨
      max (total - 53) (-1074) = e - 1 ∧ m = 2 ^ 52 ∧ -1074 < e ∧ q / 2 ^ e < 2 ^ 52 := by
  have hleast := h.least
  have hlower := (isNearest_of_contains h.pos hq).ge
  have hupper := (isNearest_of_contains h.pos hq).le
  have hmlt : (m : ℚ) + 1 ≤ 2 ^ 53 := by exact_mod_cast h.lt
  have hratio53 : q / 2 ^ e < 2 ^ 53 := by linarith
  have htop := lt_of_two_zpow hbelow (lt_two_zpow_of_ratio hratio53)
  by_cases hnormal : 2 ^ 52 ≤ m
  · by_cases hratio : (2 : ℚ) ^ 52 ≤ q / 2 ^ e
    · have hbottom := lt_of_two_zpow (two_zpow_le_of_ratio hratio) habove
      left
      omega
    · have hratio' : q / 2 ^ e < 2 ^ 52 := not_le.1 hratio
      have hm : m = 2 ^ 52 := by
        have hmle : (m : ℚ) < (2 ^ 52 : Nat) + 1 := by
          push_cast
          linarith
        have hmle' : m < 2 ^ 52 + 1 := by exact_mod_cast hmle
        omega
      have htop' := lt_of_two_zpow hbelow (lt_two_zpow_of_ratio hratio')
      by_cases he : e = -1074
      · left
        omega
      · subst hm
        have hquarter := above_of_contains (by omega) hq
        have hpow : (2 : ℚ) ^ 51 ≤ q / 2 ^ e := by linarith
        have hbottom := lt_of_two_zpow (two_zpow_le_of_ratio hpow) habove
        right
        exact ⟨by omega, rfl, by omega, hratio'⟩
  · have he : e = -1074 := h.normal.resolve_left hnormal
    have hmle : (m : ℚ) + 1 ≤ 2 ^ 52 := by exact_mod_cast not_le.1 hnormal
    have hratio52 : q / 2 ^ e < 2 ^ 52 := by linarith
    have htop' := lt_of_two_zpow hbelow (lt_two_zpow_of_ratio hratio52)
    left
    omega

/-- A number in the interval is cut off at the unit of the result or, just below a power of two, at half that
unit. -/
theorem targetExponent_of_contains (h : Canonical m e)
    (hq : (Magnitude.mk m e).interval.Contains (t * 2 ^ x)) (hle : n ≤ t) (hlt : t < n + 1)
    (hx : x ≤ Format.binary64.targetExponent (totalExponent n x)) :
    Format.binary64.targetExponent (totalExponent n x) = e ∨
      Format.binary64.targetExponent (totalExponent n x) = e - 1 ∧ m = 2 ^ 52 ∧ -1074 < e ∧
        t * 2 ^ x / 2 ^ e < 2 ^ 52 := by
  rw [targetExponent_binary64] at hx ⊢
  by_cases hn : n = 0
  · -- Nothing is left before the point, so the number is below the least unit.
    subst hn
    have htotal : totalExponent 0 x = 1 + x := by simp [totalExponent]
    rw [htotal] at hx ⊢
    have hunit : (0 : ℚ) < 2 ^ x := zpow_pos (by norm_num) x
    have hone : t < 1 := by simpa using hlt
    have hsmall : t * 2 ^ x < 2 ^ (-1074 : Int) := by
      calc t * 2 ^ x < 1 * 2 ^ x := mul_lt_mul_of_pos_right hone hunit
        _ = 2 ^ x := one_mul _
        _ ≤ 2 ^ (-1074 : Int) := zpow_le_zpow_right₀ (by norm_num) (by omega)
    have he := exponent_eq_of_lt h hq hsmall
    left
    omega
  · obtain ⟨hbelow, habove⟩ := totalExponent_bounds hn x hle hlt
    exact target_of_contains h hq hbelow habove

theorem roundWithAccuracy_eq {s : Sign} {acc : Accuracy} {em em' : ExtendedMantissa} {y z : Int}
    (hfirst : shiftToTargetExponent Format.binary64 n x acc = (em, y)) {r : Nat}
    (hrounded : em.roundedMantissa = r)
    (hsecond : shiftToTargetExponent Format.binary64 r y .exact = (em', z)) (hpos : 0 < em'.mantissa) :
    roundWithAccuracy Format.binary64 s n x acc = .finite s em'.mantissa z hpos := by
  unfold roundWithAccuracy
  rw [hfirst]
  show (match shiftToTargetExponent Format.binary64 em.roundedMantissa y .exact with
    | (em, e') => if h : em.mantissa = 0 then UnpackedFloat.zero s
      else .finite s em.mantissa e' (Nat.pos_of_ne_zero h)) = _
  rw [hrounded, hsecond]
  exact dif_neg (Nat.pos_iff_ne_zero.1 hpos)

/-- Rounding gives the number in whose interval the rational lies. -/
theorem roundWithAccuracy_of_contains (h : Canonical m e)
    (hq : (Magnitude.mk m e).interval.Contains (t * 2 ^ x)) (s : Sign) {acc : Accuracy}
    (ht : Approximates (.ofMantissaAndAccuracy n acc) t)
    (hx : x ≤ Format.binary64.targetExponent (totalExponent n x)) :
    roundWithAccuracy Format.binary64 s n x acc = .finite s m e h.pos := by
  have hmantissa : (ExtendedMantissa.ofMantissaAndAccuracy n acc).mantissa = n := by
    cases acc with
    | exact => rfl
    | inexact o => cases o <;> rfl
  obtain ⟨hle, hlt⟩ := ht.floor
  rw [hmantissa] at hle hlt
  obtain ⟨k, hk⟩ : ∃ k : Nat, Format.binary64.targetExponent (totalExponent n x) = x + k :=
    ⟨_, by rw [Int.toNat_of_nonneg (Int.sub_nonneg.2 hx)]; omega⟩
  have hfirst : shiftToTargetExponent Format.binary64 n x acc =
      (ExtendedMantissa.ofMantissaAndAccuracy n acc >>> k, x + k) := by
    have hshift : (x + (k : Int) - x).toNat = k := by omega
    unfold shiftToTargetExponent shiftToExponent
    simp only [hk, hshift]
  have hshift : t / 2 ^ k = t * 2 ^ x / 2 ^ (x + k) := by
    rw [zpow_add₀ (by norm_num), zpow_natCast]
    field_simp
  have happrox := ht.shiftRight k
  rw [hshift] at happrox
  rcases targetExponent_of_contains h hq hle hlt hx with htarget | ⟨htarget, hm, he, hratio⟩
  · rw [hk] at htarget
    rw [htarget] at happrox hfirst
    have hrounded := happrox.roundedMantissa_eq (isNearest_of_contains h.pos hq)
    have hsecond := shiftToTargetExponent_canonical h 0
    simp only [pow_zero, mul_one, Nat.cast_zero, sub_zero] at hsecond
    exact roundWithAccuracy_eq hfirst hrounded hsecond h.pos
  · -- The mantissa is rounded up to the next power of two, and the second shift takes the zero off.
    rw [hk] at htarget
    rw [htarget] at happrox hfirst
    subst hm
    have hdouble : t * 2 ^ x / 2 ^ (e - 1) = 2 * (t * 2 ^ x / 2 ^ e) := by
      rw [zpow_sub₀ (by norm_num)]
      field_simp
    have hquarter := above_of_contains he hq
    have hnearest : IsNearest (2 ^ 53) (t * 2 ^ x / 2 ^ (e - 1)) := by
      rw [hdouble]
      refine ⟨?_, ?_, fun _ => by decide⟩
      · push_cast
        linarith
      · push_cast
        linarith
    have hsecond := shiftToTargetExponent_canonical h 1
    exact roundWithAccuracy_eq hfirst (happrox.roundedMantissa_eq hnearest) hsecond h.pos

end Rounding

end ExprCalculus
