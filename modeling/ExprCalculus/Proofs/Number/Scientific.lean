import ExprCalculus.Proofs.Number.Nearest
import ExprCalculus.Decimal.Basic

/-!
# Decimals and the numbers they round to

A decimal in the rounding interval of a number is converted to that number. There are two ways to do it:
with a short coefficient and a small exponent both factors are numbers of the format, and all other
decimals take a product or a quotient of unbounded integers. Either way only one rounding takes place.
-/

namespace ExprCalculus

open Float.Model UnpackedFloat

section Operations

variable {m : Nat} {e : Int}

/-! ### Products and quotients -/

/-- A mantissa of 53 bits or more is never shifted to the left. -/
theorem le_targetExponent {n : Nat} (hn : 2 ^ 52 ≤ n) (x : Int) :
    x ≤ Format.binary64.targetExponent (totalExponent n x) := by
  have hlog : 52 ≤ n.log2 := (Nat.le_log2 (by omega)).2 hn
  rw [targetExponent_binary64, totalExponent]
  omega

theorem mul_of_contains (h : Canonical m e) {s s' : Sign} {a b : Nat} {x y : Int} (ha : 0 < a) (hb : 0 < b)
    (hab : 2 ^ 52 ≤ a * b)
    (hq : (Magnitude.mk m e).interval.Contains ((a : ℚ) * 2 ^ x * (b * 2 ^ y))) :
    UnpackedFloat.mul Format.binary64 (.finite s a x ha) (.finite s' b y hb) = .finite (s * s') m e h.pos := by
  have hproduct : (a : ℚ) * 2 ^ x * (b * 2 ^ y) = (a * b : Nat) * 2 ^ (x + y) := by
    rw [zpow_add₀ (by norm_num)]
    push_cast
    ring
  rw [hproduct] at hq
  exact roundWithAccuracy_of_contains h hq _ (approximates_exact _) (le_targetExponent hab _)

theorem div_eq_quotient_add (a : Nat) {b : Nat} (hb : 0 < b) :
    (a : ℚ) / b = (a / b : Nat) + (a % b : Nat) / b := by
  have hbne : (b : ℚ) ≠ 0 := by exact_mod_cast hb.ne'
  rw [eq_comm, ← mul_right_inj' hbne, mul_add, mul_div_cancel₀ _ hbne, mul_div_cancel₀ _ hbne]
  exact_mod_cast Nat.div_add_mod a b

/-- The quotient of two naturals with the accuracy of its remainder. -/
theorem approximates_div (a : Nat) {b : Nat} (hb : 0 < b) :
    Approximates (.ofMantissaAndAccuracy (a / b) (accuracyOfFraction (a % b) b)) ((a : ℚ) / b) := by
  have hbpos : (0 : ℚ) < b := by exact_mod_cast hb
  have hmod : ((a % b : Nat) : ℚ) < b := by exact_mod_cast Nat.mod_lt a hb
  rw [div_eq_quotient_add a hb]
  unfold accuracyOfFraction
  by_cases hzero : a % b = 0
  · rw [if_pos hzero, hzero]
    show ((a / b : Nat) : ℚ) + ((0 : Nat) : ℚ) / b = (a / b : Nat)
    simp
  · rw [if_neg hzero]
    have hpos : (0 : ℚ) < (a % b : Nat) := by exact_mod_cast Nat.pos_of_ne_zero hzero
    have hratio : (0 : ℚ) < (a % b : Nat) / b := div_pos hpos hbpos
    rcases lt_trichotomy (2 * (a % b)) b with hlt | heq | hgt
    · rw [Nat.compare_eq_lt.2 hlt]
      have hdouble : 2 * ((a % b : Nat) : ℚ) < b := by exact_mod_cast hlt
      have hhalf : ((a % b : Nat) : ℚ) / b < 1 / 2 := by
        rw [div_lt_div_iff₀ hbpos (by norm_num)]
        linarith
      constructor <;> linarith
    · rw [Nat.compare_eq_eq.2 heq]
      have hdouble : 2 * ((a % b : Nat) : ℚ) = b := by exact_mod_cast heq
      have hhalf : ((a % b : Nat) : ℚ) / b = 1 / 2 := by
        rw [div_eq_div_iff hbpos.ne' (by norm_num)]
        linarith
      show ((a / b : Nat) : ℚ) + (a % b : Nat) / b = (a / b : Nat) + 1 / 2
      rw [hhalf]
    · rw [Nat.compare_eq_gt.2 hgt]
      have hdouble : (b : ℚ) < 2 * (a % b : Nat) := by exact_mod_cast hgt
      have hhalf : (1 / 2 : ℚ) < (a % b : Nat) / b := by
        rw [div_lt_div_iff₀ (by norm_num) hbpos]
        linarith
      have hone : ((a % b : Nat) : ℚ) / b < 1 := (div_lt_one hbpos).2 hmod
      constructor <;> linarith

/-- The quotient is taken at an exponent that leaves enough bits. -/
theorem quotient_exponent_le {a b : Nat} (ha : 0 < a) (hb : 0 < b) (x y z : Int) (hz : z ≤ x - y)
    (htarget : z ≤ Format.binary64.targetExponent (totalExponent a x - totalExponent b y)) :
    z ≤ Format.binary64.targetExponent (totalExponent ((a <<< (x - y - z).toNat) / b) z) := by
  rw [targetExponent_binary64] at htarget
  by_cases hleast : z ≤ -1074
  · rw [targetExponent_binary64]
    omega
  · have hshift : 53 + b.log2 ≤ a.log2 + (x - y - z).toNat := by
      simp only [totalExponent] at htarget
      omega
    have hbits : 2 ^ 52 ≤ (a <<< (x - y - z).toNat) / b := by
      rw [Nat.le_div_iff_mul_le hb, Nat.shiftLeft_eq]
      have hlow : 2 ^ a.log2 ≤ a := Nat.log2_self_le (by omega)
      have hhigh : b < 2 ^ (b.log2 + 1) := Nat.lt_log2_self
      calc 2 ^ 52 * b ≤ 2 ^ 52 * 2 ^ (b.log2 + 1) := Nat.mul_le_mul_left _ hhigh.le
        _ = 2 ^ (53 + b.log2) := by rw [← Nat.pow_add]; congr 1; omega
        _ ≤ 2 ^ (a.log2 + (x - y - z).toNat) := Nat.pow_le_pow_right (by omega) hshift
        _ = 2 ^ a.log2 * 2 ^ (x - y - z).toNat := Nat.pow_add _ _ _
        _ ≤ a * 2 ^ (x - y - z).toNat := Nat.mul_le_mul_right _ hlow
    exact le_targetExponent hbits z

theorem div_of_contains (h : Canonical m e) {s s' : Sign} {a b : Nat} {x y : Int} (ha : 0 < a) (hb : 0 < b)
    (hq : (Magnitude.mk m e).interval.Contains ((a : ℚ) * 2 ^ x / (b * 2 ^ y))) :
    UnpackedFloat.div Format.binary64 (.finite s a x ha) (.finite s' b y hb) = .finite (s / s') m e h.pos := by
  obtain ⟨z, hz⟩ : ∃ z, z = min (x - y)
      (Format.binary64.targetExponent (totalExponent a x - totalExponent b y)) := ⟨_, rfl⟩
  have hdiff : z ≤ x - y := by omega
  have hcore : UnpackedFloat.div Format.binary64 (.finite s a x ha) (.finite s' b y hb) =
      roundWithAccuracy Format.binary64 (s / s') ((a <<< (x - y - z).toNat) / b) z
        (accuracyOfFraction ((a <<< (x - y - z).toNat) % b) b) := by
    rw [hz]
    rfl
  have hquotient : (a : ℚ) * 2 ^ x / (b * 2 ^ y) = ((a <<< (x - y - z).toNat : Nat) : ℚ) / b * 2 ^ z := by
    have hx : x = ((x - y - z).toNat : Int) + z + y := by omega
    rw [Nat.shiftLeft_eq]
    conv_lhs => rw [hx, zpow_add₀ (by norm_num), zpow_add₀ (by norm_num), zpow_natCast]
    have hy : (2 : ℚ) ^ y ≠ 0 := zpow_ne_zero y (by norm_num)
    push_cast
    field_simp
  rw [hquotient] at hq
  rw [hcore]
  exact roundWithAccuracy_of_contains h hq _ (approximates_div _ hb)
    (quotient_exponent_le ha hb x y z hdiff (by omega))

end Operations

/-! ### Factors that are exact -/

/-- The float is this positive rational, and its mantissa has all 53 bits. -/
def IsExactly (x : Float) (q : ℚ) : Prop :=
  ∃ (m : Nat) (e : Int) (hm : 0 < m),
    x.toModel.unpack = .finite .positive m e hm ∧ 2 ^ 52 ≤ m ∧ (m : ℚ) * 2 ^ e = q

/-- Rounding a short integer only fills its mantissa up. -/
theorem ofUInt64_of_lt {c : Nat} (hpos : 0 < c) (hlog : c.log2 ≤ 52)
    (h : Canonical (c * 2 ^ (52 - c.log2)) (c.log2 - 52)) :
    UnpackedFloat.ofUInt64 Format.binary64 c.toUInt64 =
      .finite .positive (c * 2 ^ (52 - c.log2)) (c.log2 - 52) h.pos := by
  have hlt : c < 2 ^ 53 := (Nat.log2_lt (by omega)).1 (by omega)
  have hnat : c.toUInt64.toNat = c := by
    show c % 2 ^ 64 = c
    omega
  have hcmp : compare (c : Int) 0 = .gt := Int.compare_eq_gt.2 (by omega)
  have htarget : Format.binary64.targetExponent (totalExponent c 0) = c.log2 - 52 := by
    rw [targetExponent_binary64, totalExponent]
    omega
  have hshift : (0 - ((c.log2 : Int) - 52)).toNat = 52 - c.log2 := by omega
  have hexp : 0 - ((52 - c.log2 : Nat) : Int) = c.log2 - 52 := by omega
  unfold UnpackedFloat.ofUInt64 UnpackedFloat.ofNat UnpackedFloat.ofInt UnpackedFloat.normalize
  rw [hnat, hcmp]
  simp only [Int.toNat_natCast]
  rw [UnpackedFloat.round, htarget]
  simp only [decreaseExponent, hshift, hexp, Nat.shiftLeft_eq]
  simpa using roundWithAccuracy_canonical h .positive 0

theorem isExactly_nat {c : Nat} (hpos : 0 < c) (hlt : c < 2 ^ 53) : IsExactly c.toUInt64.toFloat c := by
  have hlog : c.log2 < 53 := (Nat.log2_lt (by omega)).2 hlt
  have hcan := canonical_fill (e := c.log2 - 52) hpos (by omega) (by omega) (by omega)
  refine ⟨c * 2 ^ (52 - c.log2), c.log2 - 52, hcan.pos, ?_, hcan.normal.resolve_right (by omega), ?_⟩
  · show (Float.Model.pack (UnpackedFloat.ofUInt64 Format.binary64 c.toUInt64)).unpack = _
    rw [ofUInt64_of_lt hpos (by omega) hcan]
    exact unpack_pack hcan
  · push_cast
    rw [mul_assoc, ← zpow_natCast, ← zpow_add₀ (by norm_num),
      show ((52 - c.log2 : Nat) : Int) + (c.log2 - 52) = 0 by omega, zpow_zero, mul_one]

theorem log2_five_pow_le {k : Nat} (hk : k ≤ 22) : (5 ^ k).log2 ≤ 52 := by
  interval_cases k <;> decide

theorem toBits_powerOfTen : ∀ k : Fin 23, Float.exactlyRepresentablePowersOfTen[k].toBits =
    (Float.Model.pack (.finite .positive (5 ^ k.val * 2 ^ (52 - (5 ^ k.val).log2))
      (k.val + (5 ^ k.val).log2 - 52)
      (Nat.mul_pos (Nat.pow_pos (by decide)) (Nat.two_pow_pos _)))).toBits := by
  decide +kernel

theorem isExactly_powerOfTen {k : Nat} (hk : k ≤ 22)
    (hbound : k < Float.exactlyRepresentablePowersOfTen.size) :
    IsExactly Float.exactlyRepresentablePowersOfTen[k] (10 ^ k) := by
  have hlog := log2_five_pow_le hk
  have hcan := canonical_fill (e := k + (5 ^ k).log2 - 52) (Nat.pow_pos (by decide)) hlog (by omega) (by omega)
  have hpack : Float.exactlyRepresentablePowersOfTen[k] = Float.ofModel (Float.Model.pack
      (.finite .positive (5 ^ k * 2 ^ (52 - (5 ^ k).log2)) (k + (5 ^ k).log2 - 52) hcan.pos)) :=
    Float.toBits_inj.1 (toBits_powerOfTen ⟨k, by omega⟩)
  refine ⟨5 ^ k * 2 ^ (52 - (5 ^ k).log2), k + (5 ^ k).log2 - 52, hcan.pos, ?_,
    hcan.normal.resolve_right (by omega), ?_⟩
  · rw [hpack]
    exact unpack_pack hcan
  · have hpow : (2 : ℚ) ^ (52 - (5 ^ k).log2) * 2 ^ ((k : Int) + (5 ^ k).log2 - 52) = 2 ^ k := by
      rw [← zpow_natCast, ← zpow_add₀ (by norm_num), ← zpow_natCast 2 k]
      congr 1
      omega
    push_cast
    rw [mul_assoc, hpow, ← mul_pow]
    norm_num

/-! ### Decimals -/

section Decimals

variable {m : Nat} {e : Int}

/-- The rational number that a decimal is. -/
def Decimal.rational (d : Decimal) : ℚ := d.coefficient * 10 ^ d.exponent

theorem IsExactly.mul {x y : Float} {p q : ℚ} (hx : IsExactly x p) (hy : IsExactly y q) (h : Canonical m e)
    (hpq : (Magnitude.mk m e).interval.Contains (p * q)) :
    (x * y).toModel.unpack = .finite .positive m e h.pos := by
  obtain ⟨a, b, ha, hxa, halow, rfl⟩ := hx
  obtain ⟨c, d, hc, hyc, hclow, rfl⟩ := hy
  have hbits : 2 ^ 52 ≤ a * c := by
    calc 2 ^ 52 ≤ a * 1 := by omega
      _ ≤ a * c := Nat.mul_le_mul_left a hc
  show (Float.Model.pack (UnpackedFloat.mul Format.binary64 x.toModel.unpack y.toModel.unpack)).unpack = _
  rw [hxa, hyc, mul_of_contains h ha hc hbits hpq]
  exact unpack_pack h

theorem IsExactly.div {x y : Float} {p q : ℚ} (hx : IsExactly x p) (hy : IsExactly y q) (h : Canonical m e)
    (hpq : (Magnitude.mk m e).interval.Contains (p / q)) :
    (x / y).toModel.unpack = .finite .positive m e h.pos := by
  obtain ⟨a, b, ha, hxa, _, rfl⟩ := hx
  obtain ⟨c, d, hc, hyc, _, rfl⟩ := hy
  show (Float.Model.pack (UnpackedFloat.div Format.binary64 x.toModel.unpack y.toModel.unpack)).unpack = _
  rw [hxa, hyc, div_of_contains h ha hc hpq]
  exact unpack_pack h

/-- The conversion by unbounded integers. -/
theorem ofScientific_of_contains (h : Canonical m e) {c : Nat} {k : Int} (hc : 0 < c)
    (hq : (Magnitude.mk m e).interval.Contains ((c : ℚ) * 10 ^ k)) (hmax : k ≤ 2048)
    (hmin : -(2048 + (c.log2 : Int)) ≤ k) :
    UnpackedFloat.ofScientific Format.binary64 c k = .finite .positive m e h.pos := by
  have hc0 : c ≠ 0 := by omega
  have hlarge : ¬k > 2 ^ Format.binary64.exponentBits := by
    show ¬k > 2048
    omega
  have hsmall : ¬k < -((2 ^ Format.binary64.exponentBits : Int) + c.log2) := by
    show ¬k < -(2048 + (c.log2 : Int))
    omega
  rw [UnpackedFloat.ofScientific, dif_neg hc0, if_neg hlarge, if_neg hsmall]
  by_cases hk : 0 ≤ k
  · rw [if_pos hk]
    have hpow : 0 < 10 ^ k.toNat := Nat.pow_pos (by decide)
    have hbits : 2 ^ 52 ≤ c <<< 53 * 10 ^ k.toNat := by
      rw [Nat.shiftLeft_eq]
      calc 2 ^ 52 ≤ 1 * 2 ^ 53 * 1 := by decide
        _ ≤ c * 2 ^ 53 * 10 ^ k.toNat := Nat.mul_le_mul (Nat.mul_le_mul_right _ hc) hpow
    have hvalue : (c : ℚ) * (10 : ℚ) ^ k =
        ((c <<< 53 : Nat) : ℚ) * 2 ^ (-53 : Int) * (((10 ^ k.toNat : Nat) : ℚ) * 2 ^ (0 : Int)) := by
      have hk' : (10 : ℚ) ^ k = 10 ^ k.toNat := by rw [← zpow_natCast, Int.toNat_of_nonneg hk]
      rw [Nat.shiftLeft_eq, hk']
      push_cast
      field_simp
      norm_num
    rw [hvalue] at hq
    exact mul_of_contains h _ hpow hbits hq
  · rw [if_neg hk]
    have hpow : 0 < 10 ^ (-k).toNat := Nat.pow_pos (by decide)
    have hvalue : (c : ℚ) * (10 : ℚ) ^ k =
        (c : ℚ) * 2 ^ (0 : Int) / (((10 ^ (-k).toNat : Nat) : ℚ) * 2 ^ (0 : Int)) := by
      have hk' : (10 : ℚ) ^ (-k).toNat = (10 ^ k)⁻¹ := by
        rw [← zpow_natCast, Int.toNat_of_nonneg (by omega), zpow_neg]
      push_cast
      rw [hk', mul_one, mul_one, div_inv_eq_mul]
    rw [hvalue] at hq
    exact div_of_contains h _ hpow hq

/-- A number in the interval of a finite one is neither very large nor very small. -/
theorem interval_bounds (h : Canonical m e) {q : ℚ} (hq : (Magnitude.mk m e).interval.Contains q) :
    2 ^ (-1075 : Int) ≤ q ∧ q < 2 ^ (1025 : Int) := by
  have hnearest := isNearest_of_contains h.pos hq
  have hunit : (0 : ℚ) < 2 ^ e := zpow_pos (by norm_num) e
  have hlow : (2 : ℚ) ^ (-1074 : Int) ≤ 2 ^ e := zpow_le_zpow_right₀ (by norm_num) h.least
  have hhigh : (2 : ℚ) ^ e ≤ 2 ^ (971 : Int) := zpow_le_zpow_right₀ (by norm_num) h.greatest
  have hone : (1 : ℚ) ≤ m := by exact_mod_cast h.pos
  have hmax : (m : ℚ) + 1 ≤ 2 ^ 53 := by exact_mod_cast h.lt
  constructor
  · have hhalf : 1 / 2 * 2 ^ e ≤ q := (le_div_iff₀ hunit).1 (by linarith [hnearest.ge])
    have hstep : (2 : ℚ) ^ (-1075 : Int) = 1 / 2 * 2 ^ (-1074 : Int) := by
      rw [show (-1075 : Int) = -1 + -1074 by decide, zpow_add₀ (by norm_num)]
      norm_num only
    calc (2 : ℚ) ^ (-1075 : Int) = 1 / 2 * 2 ^ (-1074 : Int) := hstep
      _ ≤ 1 / 2 * 2 ^ e := mul_le_mul_of_nonneg_left hlow (by norm_num)
      _ ≤ q := hhalf
  · have hdouble : q < 2 ^ 53 * 2 ^ e := (div_lt_iff₀ hunit).1 (by linarith [hnearest.le])
    calc q < 2 ^ 53 * 2 ^ e := hdouble
      _ ≤ 2 ^ 53 * 2 ^ (971 : Int) := mul_le_mul_of_nonneg_left hhigh (by norm_num)
      _ = 2 ^ (1024 : Int) := by rw [← zpow_natCast, ← zpow_add₀ (by norm_num)]; rfl
      _ < 2 ^ (1025 : Int) := zpow_lt_zpow_right₀ (by norm_num) (by decide)

theorem pow_digitCount_le {n : Nat} (hn : 0 < n) : 10 ^ (Decimal.digitCount n - 1) ≤ n := by
  by_contra hlt
  have hpos : 0 < Decimal.digitCount n - 1 := by
    by_contra hzero
    rw [Nat.eq_zero_of_not_pos hzero] at hlt
    omega
  have hlength := (Nat.length_toDigits_le_iff (by decide) hpos).2 (not_le.1 hlt)
  unfold Decimal.digitCount at hpos hlength
  omega

theorem lt_pow_digitCount (n : Nat) : n < 10 ^ Decimal.digitCount n :=
  (Nat.length_toDigits_le_iff (by decide) Nat.length_toDigits_pos).1 (le_refl _)

theorem two_pow_lt_ten_pow : (2 : ℚ) ^ (1075 : Int) < 10 ^ (400 : Int) := by
  calc (2 : ℚ) ^ (1075 : Int) < 2 ^ (1200 : Int) := zpow_lt_zpow_right₀ (by norm_num) (by decide)
    _ = (2 ^ 3) ^ (400 : Int) := by rw [← zpow_natCast, ← zpow_mul]; rfl
    _ ≤ 10 ^ (400 : Int) := zpow_le_zpow_left₀ (by decide) (by norm_num) (by norm_num)

/-- The leading digit of a decimal in such an interval is in the range in which it is converted. -/
theorem lead_bounds (h : Canonical m e) {d : Decimal} (hd : 0 < d.coefficient)
    (hq : (Magnitude.mk m e).interval.Contains d.rational) :
    -400 < d.exponent + Decimal.digitCount d.coefficient ∧
      d.exponent + Decimal.digitCount d.coefficient ≤ 400 := by
  obtain ⟨hlow, hhigh⟩ := interval_bounds h hq
  have hscale : (0 : ℚ) < 10 ^ d.exponent := zpow_pos (by norm_num) _
  have hcount : 0 < Decimal.digitCount d.coefficient := Nat.length_toDigits_pos
  constructor
  · have hcoef : (d.coefficient : ℚ) < 10 ^ Decimal.digitCount d.coefficient := by
      exact_mod_cast lt_pow_digitCount d.coefficient
    have hlt : d.rational < 10 ^ (d.exponent + Decimal.digitCount d.coefficient) := by
      rw [zpow_add₀ (by norm_num), zpow_natCast, mul_comm]
      exact mul_lt_mul_of_pos_right hcoef hscale
    have hpow : (10 : ℚ) ^ (-400 : Int) < 2 ^ (-1075 : Int) := by
      rw [zpow_neg, zpow_neg]
      exact inv_strictAnti₀ (zpow_pos (by norm_num) _) two_pow_lt_ten_pow
    exact (zpow_lt_zpow_iff_right₀ (by norm_num)).1 (hpow.trans (hlow.trans_lt hlt))
  · have hcoef : (10 : ℚ) ^ (Decimal.digitCount d.coefficient - 1) ≤ d.coefficient := by
      exact_mod_cast pow_digitCount_le hd
    have hle : (10 : ℚ) ^ (d.exponent + (Decimal.digitCount d.coefficient - 1 : Nat)) ≤ d.rational := by
      rw [zpow_add₀ (by norm_num), zpow_natCast, mul_comm]
      exact mul_le_mul_of_nonneg_right hcoef hscale.le
    have hpow : (2 : ℚ) ^ (1025 : Int) < 10 ^ (400 : Int) :=
      (zpow_lt_zpow_right₀ (by norm_num) (by decide)).trans two_pow_lt_ten_pow
    have hexp := (zpow_lt_zpow_iff_right₀ (by norm_num)).1 (hle.trans_lt (hhigh.trans hpow))
    omega

theorem digitCount_le_log2 {n : Nat} (hn : 0 < n) : Decimal.digitCount n ≤ n.log2 + 1 := by
  have hlow := pow_digitCount_le hn
  have hpow : 2 ^ (Decimal.digitCount n - 1) ≤ 10 ^ (Decimal.digitCount n - 1) :=
    Nat.pow_le_pow_left (by decide) _
  have hlog := (Nat.le_log2 (by omega)).2 (hpow.trans hlow)
  omega

/-- A short decimal is converted by one product or quotient of floats. -/
theorem unpack_ofScientific_short (h : Canonical m e) {c : Nat} {k : Int} (hc : 0 < c)
    (hshort : c < 2 ^ 53 ∧ k.natAbs ≤ 22)
    (hq : (Magnitude.mk m e).interval.Contains (Decimal.rational ⟨c, k⟩)) :
    (Float.ofScientific c (k < 0) k.natAbs).toModel.unpack = .finite .positive m e h.pos := by
  have hcoefficient := isExactly_nat hc hshort.1
  have hpower := isExactly_powerOfTen hshort.2 (by simp [Float.exactlyRepresentablePowersOfTen]; omega)
  rw [Float.ofScientific, dif_pos hshort]
  by_cases hk : k < 0
  · simp only [hk, decide_true, if_true]
    have hvalue : (c : ℚ) / 10 ^ k.natAbs = Decimal.rational ⟨c, k⟩ := by
      show (c : ℚ) / 10 ^ k.natAbs = c * (10 : ℚ) ^ k
      rw [← zpow_natCast, show ((k.natAbs : Nat) : Int) = -k by omega, zpow_neg, div_inv_eq_mul]
    rw [← hvalue] at hq
    exact hcoefficient.div hpower h hq
  · simp only [hk, decide_false, Bool.false_eq_true, if_false]
    have hvalue : (c : ℚ) * 10 ^ k.natAbs = Decimal.rational ⟨c, k⟩ := by
      show (c : ℚ) * 10 ^ k.natAbs = c * (10 : ℚ) ^ k
      rw [← zpow_natCast, show ((k.natAbs : Nat) : Int) = k by omega]
    rw [← hvalue] at hq
    exact hcoefficient.mul hpower h hq

theorem unpack_ofScientific (h : Canonical m e) {d : Decimal} (hd : 0 < d.coefficient)
    (hq : (Magnitude.mk m e).interval.Contains d.rational) :
    (Float.ofScientific d.coefficient (d.exponent < 0) d.exponent.natAbs).toModel.unpack =
      .finite .positive m e h.pos := by
  obtain ⟨hlow, hhigh⟩ := lead_bounds h hd hq
  obtain ⟨c, k⟩ := d
  simp only at hd hlow hhigh ⊢
  by_cases hshort : c < 2 ^ 53 ∧ k.natAbs ≤ 22
  · exact unpack_ofScientific_short h hd hshort hq
  · have hcount := digitCount_le_log2 hd
    have hround := ofScientific_of_contains (k := k) h hd hq (by omega) (by omega)
    have hexp : (if decide (k < 0) = true then Int.negOfNat k.natAbs else Int.ofNat k.natAbs) = k := by
      by_cases hk : k < 0
      · rw [if_pos (decide_eq_true hk), Int.negOfNat_eq]
        show -(k.natAbs : Int) = k
        omega
      · rw [if_neg (by simpa using hk)]
        show (k.natAbs : Int) = k
        omega
    rw [Float.ofScientific, dif_neg hshort]
    show (Float.Model.pack (UnpackedFloat.ofScientific Format.binary64 c
      (if decide (k < 0) = true then Int.negOfNat k.natAbs else Int.ofNat k.natAbs))).unpack = _
    rw [hexp, hround]
    exact unpack_pack h

/-- A decimal in the interval of a number is converted to that number. -/
theorem unpack_toFloat (h : Canonical m e) {d : Decimal}
    (hq : (Magnitude.mk m e).interval.Contains d.rational) :
    d.toFloat.toModel.unpack = .finite .positive m e h.pos := by
  have hpos : (0 : ℚ) < d.rational := lt_of_lt_of_le (zpow_pos (by norm_num) _) (interval_bounds h hq).1
  have hd : 0 < d.coefficient := by
    by_contra hzero
    rw [Decimal.rational, Nat.eq_zero_of_not_pos hzero, Nat.cast_zero, zero_mul] at hpos
    exact lt_irrefl _ hpos
  obtain ⟨hlow, hhigh⟩ := lead_bounds h hd hq
  have hsmall : ¬(d.coefficient = 0 ∨ d.exponent + (Decimal.digitCount d.coefficient : Int) < -400) := by
    omega
  have hlarge : ¬400 < d.exponent + (Decimal.digitCount d.coefficient : Int) := by omega
  rw [Decimal.toFloat]
  simp only [if_neg hsmall, if_neg hlarge]
  exact unpack_ofScientific h hd hq

end Decimals

end ExprCalculus
