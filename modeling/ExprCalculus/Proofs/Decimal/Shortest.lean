import ExprCalculus.Decimal.Shortest
import ExprCalculus.Proofs.Number.Scientific

/-!
# The shortest decimal lies in its interval

What `RoundingInterval.gridPoint?` finds lies in the interval, and on the finest grid it does find
something: a step there is at most a quarter of a unit, so that the multiple next below the value is inside.
-/

namespace ExprCalculus

namespace RoundingInterval

variable {i : RoundingInterval}

theorem holds_iff {unit x : Nat} (hunit : 0 < unit) :
    i.holds unit x = true ↔ i.Contains ((x : ℚ) / unit * 2 ^ i.exponent) := by
  have hpos : (0 : ℚ) < unit := by exact_mod_cast hunit
  rw [contains_mul_iff, holds]
  cases i.closed with
  | true =>
    simp only [if_true, Bool.and_eq_true, decide_eq_true_eq, le_div_iff₀ hpos, div_le_iff₀ hpos]
    norm_cast
  | false =>
    simp only [Bool.false_eq_true, if_false, Bool.and_eq_true, decide_eq_true_eq, lt_div_iff₀ hpos,
      div_lt_iff₀ hpos]
    norm_cast

theorem toNat_neg_zpow {b : ℚ} (hb : b ≠ 0) (k : Int) : b ^ (-k).toNat * b ^ k = b ^ k.toNat := by
  rw [← zpow_natCast, ← zpow_natCast, ← zpow_add₀ hb]
  congr 1
  omega

theorem commonUnits_pos (k e : Int) : 0 < (commonUnits k e).1 ∧ 0 < (commonUnits k e).2 :=
  ⟨Nat.mul_pos (Nat.pow_pos (by decide)) (Nat.pow_pos (by decide)),
    Nat.mul_pos (Nat.pow_pos (by decide)) (Nat.pow_pos (by decide))⟩

/-- The common units stand to each other as `10 ^ k` to `2 ^ e`. -/
theorem commonUnits_ratio (k e : Int) :
    ((commonUnits k e).1 : ℚ) / (commonUnits k e).2 * 2 ^ e = 10 ^ k := by
  have hstep : ((commonUnits k e).1 : ℚ) = 10 ^ k.toNat * 2 ^ (-e).toNat := by
    show ((10 ^ k.toNat * 2 ^ (-e).toNat : Nat) : ℚ) = _
    push_cast
    rfl
  have hunit : ((commonUnits k e).2 : ℚ) = 2 ^ e.toNat * 10 ^ (-k).toNat := by
    show ((2 ^ e.toNat * 10 ^ (-k).toNat : Nat) : ℚ) = _
    push_cast
    rfl
  have htwo := toNat_neg_zpow (b := 2) (by norm_num) e
  have hten := toNat_neg_zpow (b := 10) (by norm_num) k
  have hpos : (0 : ℚ) < (commonUnits k e).2 := by exact_mod_cast (commonUnits_pos k e).2
  rw [div_mul_eq_mul_div, div_eq_iff hpos.ne', hstep, hunit, mul_assoc, htwo, ← hten]
  ring

theorem multiple_eq_rational (n : Nat) (k e : Int) :
    ((n * (commonUnits k e).1 : Nat) : ℚ) / (commonUnits k e).2 * 2 ^ e = Decimal.rational ⟨n, k⟩ := by
  rw [Decimal.rational, ← commonUnits_ratio k e]
  push_cast
  ring

/-- A multiple of `10 ^ k` passes the test of the grid if and only if it lies in the interval. -/
theorem holds_multiple_iff (k : Int) (n : Nat) :
    i.holds (commonUnits k i.exponent).2 (n * (commonUnits k i.exponent).1) = true ↔
      i.Contains (Decimal.rational ⟨n, k⟩) := by
  rw [holds_iff (commonUnits_pos k i.exponent).2, multiple_eq_rational]

/-- How many steps of `10 ^ k` fit below the value. -/
def stepsBelow (i : RoundingInterval) (k : Int) : Nat :=
  i.value * (commonUnits k i.exponent).2 / (commonUnits k i.exponent).1

theorem stepsBelow_bounds (i : RoundingInterval) (k : Int) :
    Decimal.rational ⟨i.stepsBelow k, k⟩ ≤ i.value * 2 ^ i.exponent ∧
      i.value * 2 ^ i.exponent < Decimal.rational ⟨i.stepsBelow k + 1, k⟩ := by
  have hunit : (0 : ℚ) < (commonUnits k i.exponent).2 := by exact_mod_cast (commonUnits_pos k i.exponent).2
  have hpos : (0 : ℚ) < 2 ^ i.exponent := zpow_pos (by norm_num) _
  have hvalue : (i.value : ℚ) * 2 ^ i.exponent =
      ((i.value * (commonUnits k i.exponent).2 : Nat) : ℚ) / (commonUnits k i.exponent).2 *
        2 ^ i.exponent := by
    push_cast
    rw [mul_div_cancel_right₀ _ hunit.ne']
  rw [hvalue, ← multiple_eq_rational, ← multiple_eq_rational]
  constructor
  · have hdiv : i.stepsBelow k * (commonUnits k i.exponent).1 ≤ i.value * (commonUnits k i.exponent).2 :=
      Nat.div_mul_le_self _ _
    gcongr
  · have hdiv : i.value * (commonUnits k i.exponent).2 <
        (i.stepsBelow k + 1) * (commonUnits k i.exponent).1 := by
      rw [Nat.add_mul, Nat.one_mul]
      exact Nat.lt_div_mul_add (commonUnits_pos k i.exponent).1
    gcongr

theorem contains_of_gridPoint? {k : Int} {d : Decimal} (h : i.gridPoint? k = some d) :
    i.Contains d.rational := by
  have hnext : i.stepsBelow k * (commonUnits k i.exponent).1 + (commonUnits k i.exponent).1 =
      (i.stepsBelow k + 1) * (commonUnits k i.exponent).1 := (Nat.succ_mul _ _).symm
  simp only [gridPoint?, ← stepsBelow.eq_1, hnext] at h
  split at h
  · rename_i hbelow habove
    split_ifs at h <;> cases h
    · exact (holds_multiple_iff k _).1 hbelow
    · exact (holds_multiple_iff k _).1 habove
  · rename_i hbelow _
    cases h
    exact (holds_multiple_iff k _).1 hbelow
  · rename_i _ habove
    cases h
    exact (holds_multiple_iff k _).1 habove
  · cases h

theorem isSome_gridPoint?_of_contains {k : Int} (h : i.Contains (Decimal.rational ⟨i.stepsBelow k, k⟩)) :
    (i.gridPoint? k).isSome = true := by
  have hbelow := (holds_multiple_iff k _).2 h
  simp only [gridPoint?, ← stepsBelow.eq_1, hbelow]
  split <;> simp_all

theorem contains_of_lt {q : ℚ} (hlow : i.low * 2 ^ i.exponent < q) (hhigh : q < i.high * 2 ^ i.exponent) :
    i.Contains q := by
  unfold Contains
  split_ifs
  · exact ⟨hlow.le, hhigh.le⟩
  · exact ⟨hlow, hhigh⟩

/-- A grid has a point in the interval when its steps fit between the lower end and the value. -/
theorem isSome_gridPoint? {k : Int} (hhigh : i.value < i.high)
    (hgap : (i.low : ℚ) * 2 ^ i.exponent + 10 ^ k ≤ i.value * 2 ^ i.exponent) :
    (i.gridPoint? k).isSome = true := by
  have hpos : (0 : ℚ) < 2 ^ i.exponent := zpow_pos (by norm_num) _
  obtain ⟨hfloor, hceil⟩ := stepsBelow_bounds i k
  refine isSome_gridPoint?_of_contains (contains_of_lt ?_ ?_)
  · have hstep : Decimal.rational ⟨i.stepsBelow k + 1, k⟩ =
        Decimal.rational ⟨i.stepsBelow k, k⟩ + 10 ^ k := by
      simp only [Decimal.rational]
      push_cast
      ring
    linarith
  · have hlt : (i.value : ℚ) * 2 ^ i.exponent < i.high * 2 ^ i.exponent := by gcongr
    exact hfloor.trans_lt hlt

/-! ### The leading digit -/

theorem ten_pow_le_quotient {num den : Nat} (hden : 0 < den) (hle : den ≤ num) :
    (10 : ℚ) ^ ((Decimal.digitCount (num / den) : Int) - 1) ≤ num / den := by
  have hdenq : (0 : ℚ) < den := by exact_mod_cast hden
  have hdigits := pow_digitCount_le (Nat.div_pos hle hden)
  have hcount : 0 < Decimal.digitCount (num / den) := Nat.length_toDigits_pos
  have hexp : (Decimal.digitCount (num / den) : Int) - 1 = (Decimal.digitCount (num / den) - 1 : Nat) := by
    omega
  rw [hexp, zpow_natCast, le_div_iff₀ hdenq]
  have hprod : 10 ^ (Decimal.digitCount (num / den) - 1) * den ≤ num :=
    (Nat.mul_le_mul_right den hdigits).trans (Nat.div_mul_le_self num den)
  exact_mod_cast hprod

theorem ten_pow_neg_le_quotient {num den : Nat} (hnum : 0 < num) (hden : 0 < den) :
    (10 : ℚ) ^ (-(Decimal.digitCount ((den - 1) / num) : Int)) ≤ num / den := by
  have hdenq : (0 : ℚ) < den := by exact_mod_cast hden
  have hprod : den ≤ 10 ^ Decimal.digitCount ((den - 1) / num) * num := by
    have hlt := (Nat.div_lt_iff_lt_mul hnum).1 (lt_pow_digitCount ((den - 1) / num))
    omega
  have hprodq : (den : ℚ) ≤ 10 ^ Decimal.digitCount ((den - 1) / num) * num := by exact_mod_cast hprod
  rw [zpow_neg, zpow_natCast, inv_le_iff_one_le_mul₀ (by positivity), div_mul_eq_mul_div, le_div_iff₀ hdenq]
  linarith

theorem ten_pow_leadingExponent_le (hpos : 0 < i.value) :
    (10 : ℚ) ^ i.leadingExponent ≤ i.value * 2 ^ i.exponent := by
  obtain ⟨num, hnum⟩ : ∃ num, num = i.value * 2 ^ i.exponent.toNat := ⟨_, rfl⟩
  obtain ⟨den, hden⟩ : ∃ den, den = 2 ^ (-i.exponent).toNat := ⟨_, rfl⟩
  have hdenpos : 0 < den := by rw [hden]; exact Nat.two_pow_pos _
  have hnumpos : 0 < num := by rw [hnum]; exact Nat.mul_pos hpos (Nat.two_pow_pos _)
  have hvalue : (i.value : ℚ) * 2 ^ i.exponent = num / den := by
    have hdenq : (den : ℚ) ≠ 0 := by exact_mod_cast hdenpos.ne'
    rw [eq_div_iff hdenq, hnum, hden]
    push_cast
    rw [← toNat_neg_zpow (b := 2) (by norm_num) i.exponent]
    ring
  have hlead : i.leadingExponent =
      if den ≤ num then (Decimal.digitCount (num / den) : Int) - 1
      else -(Decimal.digitCount ((den - 1) / num) : Int) := by
    rw [hnum, hden]
    rfl
  rw [hlead, hvalue]
  split_ifs with hle
  · exact ten_pow_le_quotient hdenpos hle
  · exact ten_pow_neg_le_quotient hnumpos hdenpos

/-- When the value has 55 bits at most, the eighteenth digit counts less than one unit. -/
theorem ten_pow_finest_le (hpos : 0 < i.value) (hle : i.value ≤ 2 ^ 55) :
    (10 : ℚ) ^ (i.leadingExponent + 1 - (18 : Nat)) ≤ 2 ^ i.exponent := by
  have hunit : (0 : ℚ) < 2 ^ i.exponent := zpow_pos (by norm_num) _
  have hvalue : (i.value : ℚ) ≤ 2 ^ 55 := by exact_mod_cast hle
  have hsplit : (10 : ℚ) ^ (i.leadingExponent + 1 - (18 : Nat)) = 10 ^ i.leadingExponent / 10 ^ 17 := by
    rw [show i.leadingExponent + 1 - ((18 : Nat) : Int) = i.leadingExponent - (17 : Nat) by push_cast; ring,
      zpow_sub₀ (by norm_num), zpow_natCast]
  rw [hsplit, div_le_iff₀ (by norm_num)]
  calc (10 : ℚ) ^ i.leadingExponent ≤ i.value * 2 ^ i.exponent := ten_pow_leadingExponent_le hpos
    _ ≤ 2 ^ 55 * 2 ^ i.exponent := mul_le_mul_of_nonneg_right hvalue hunit.le
    _ ≤ 10 ^ 17 * 2 ^ i.exponent := mul_le_mul_of_nonneg_right (by norm_num) hunit.le
    _ = 2 ^ i.exponent * 10 ^ 17 := mul_comm _ _

theorem contains_shortest_of_isSome {n : Nat} (hn : n < 19)
    (hsome : (i.gridPoint? (i.leadingExponent + 1 - n)).isSome = true) : i.Contains i.shortest.rational := by
  have hfound : ((List.range 19).findSome? fun n : Nat =>
      i.gridPoint? (i.leadingExponent + 1 - n)).isSome = true :=
    List.findSome?_isSome_iff.2 ⟨n, List.mem_range.2 hn, hsome⟩
  obtain ⟨d, hd⟩ := Option.isSome_iff_exists.1 hfound
  obtain ⟨j, _, hj⟩ := List.exists_of_findSome?_eq_some hd
  have hshortest : i.shortest = d := by
    simp only [shortest, hd, Option.getD_some]
  rw [hshortest]
  exact contains_of_gridPoint? hj

theorem contains_shortest_of_le (hlow : i.low + 1 ≤ i.value) (hhigh : i.value < i.high)
    (hle : i.value ≤ 2 ^ 55) : i.Contains i.shortest.rational := by
  have hunit : (0 : ℚ) < 2 ^ i.exponent := zpow_pos (by norm_num) _
  have hlowq : (i.low : ℚ) + 1 ≤ i.value := by exact_mod_cast hlow
  have hfinest := ten_pow_finest_le (by omega) hle
  refine contains_shortest_of_isSome (n := 18) (by decide) (isSome_gridPoint? hhigh ?_)
  calc (i.low : ℚ) * 2 ^ i.exponent + 10 ^ (i.leadingExponent + 1 - (18 : Nat)) ≤
        i.low * 2 ^ i.exponent + 2 ^ i.exponent := by linarith
    _ = (i.low + 1) * 2 ^ i.exponent := by ring
    _ ≤ i.value * 2 ^ i.exponent := mul_le_mul_of_nonneg_right hlowq hunit.le

end RoundingInterval

theorem contains_shortest {m : Nat} {e : Int} (h : Canonical m e) :
    (Magnitude.mk m e).interval.Contains (Magnitude.mk m e).interval.shortest.rational := by
  have hpos := h.pos
  have hlt := h.lt
  refine RoundingInterval.contains_shortest_of_le ?_ ?_ ?_
  · show 4 * m - (if m = 2 ^ 52 ∧ -1074 < e then 1 else 2) + 1 ≤ 4 * m
    split_ifs <;> omega
  · show 4 * m < 4 * m + 2
    omega
  · show 4 * m ≤ 2 ^ 55
    omega

end ExprCalculus
