import ExprCalculus.Proofs.Number.Rounding

/-!
# Exact integers among binary64 numbers

`rational?` reads a finite number as the rational it is. An integer of magnitude below `2 ^ 53` less one is
computed without rounding.
-/

namespace ExprCalculus

open Float.Model UnpackedFloat

/-- The rational number that a finite number is. -/
def unpackedRational? : UnpackedFloat → Option ℚ
  | .zero _ => some 0
  | .finite s m e _ => some (s.apply m * 2 ^ e)
  | _ => none

/-- The rational number that a finite float is. -/
def rational? (x : Float) : Option ℚ := unpackedRational? x.toModel.unpack

theorem rational?_of_isFinite {x : Float} (h : x.isFinite = true) : ∃ q, rational? x = some q := by
  have hfin : x.toModel.unpack.isFinite = true := h
  unfold rational?
  cases hu : x.toModel.unpack with
  | zero s => exact ⟨0, rfl⟩
  | finite s m e hm => exact ⟨s.apply m * 2 ^ e, rfl⟩
  | _ =>
    rw [hu] at hfin
    exact absurd hfin Bool.false_ne_true

theorem rational?_zero : rational? Arithmetic.zero = some 0 := rfl

theorem rational?_one : rational? Arithmetic.one = some 1 := by
  show some (((2 ^ 52 : Nat) : ℚ) * 2 ^ (-52 : ℤ)) = some 1
  norm_num

theorem rational?_negOne : rational? Arithmetic.negOne = some (-1) := by
  show some (((-(2 ^ 52 : Nat) : ℤ) : ℚ) * 2 ^ (-52 : ℤ)) = some (-1)
  norm_num

/-! ### Rounding an integer -/

/-- A positive integer up to `2 ^ 53` has a canonical form, with an exponent at which its multiples by powers of
two can be cut. -/
theorem canonical_of_nat {a : Nat} (hpos : 0 < a) (hle : a ≤ 2 ^ 53) :
    ∃ m : Nat, ∃ e : Int, Canonical m e ∧ -52 ≤ e ∧ a * 2 ^ 52 = m * 2 ^ (e + 52).toNat := by
  by_cases hmax : a = 2 ^ 53
  · refine ⟨2 ^ 52, 1, ⟨by decide, by decide, by decide, by decide, .inl (by decide)⟩, by decide, ?_⟩
    rw [hmax]
    decide
  · have hlog : a.log2 < 53 := (Nat.log2_lt (by omega)).2 (by omega)
    refine ⟨a * 2 ^ (52 - a.log2), a.log2 - 52, canonical_fill hpos (by omega) (by omega) (by omega), ?_, ?_⟩
    · omega
    · rw [Nat.mul_assoc, ← Nat.pow_add]
      congr 2
      omega

theorem round_nat {a : Nat} (hpos : 0 < a) (hle : a ≤ 2 ^ 53) {k : Nat} (hk : 52 ≤ k) (s : Sign) :
    ∃ (m : Nat) (e : Int) (h : Canonical m e),
      UnpackedFloat.round Format.binary64 s (a * 2 ^ k) (-k) = .finite s m e h.pos ∧ (m : ℚ) * 2 ^ e = a := by
  obtain ⟨m, e, hcan, he, hval⟩ := canonical_of_nat hpos hle
  have hmant : a * 2 ^ k = m * 2 ^ (e + k).toNat := by
    calc a * 2 ^ k = a * 2 ^ 52 * 2 ^ (k - 52) := by
          rw [Nat.mul_assoc, ← Nat.pow_add]
          congr 2
          omega
      _ = m * 2 ^ ((e + 52).toNat + (k - 52)) := by rw [hval, Nat.mul_assoc, ← Nat.pow_add]
      _ = m * 2 ^ (e + k).toNat := by
          congr 2
          omega
  have hexp : -(k : Int) = e - (e + k).toNat := by omega
  -- The exponent is not above the target, so `round` appends no zeros of its own.
  have hshift : (e - (e + k).toNat - e).toNat = 0 := by omega
  refine ⟨m, e, hcan, ?_, ?_⟩
  · rw [hmant, hexp, UnpackedFloat.round, hcan.targetExponent]
    simp only [decreaseExponent, hshift, Nat.shiftLeft_zero, Int.ofNat_zero, Int.sub_zero]
    exact roundWithAccuracy_canonical hcan s _
  · have hcast : (a : ℚ) * 2 ^ 52 = m * 2 ^ (e + 52).toNat := by exact_mod_cast hval
    have hpow : (2 : ℚ) ^ (e + 52).toNat = 2 ^ e * 2 ^ 52 := by
      rw [← zpow_natCast, show (((e + 52).toNat : Nat) : Int) = e + 52 by omega,
        zpow_add₀ (by norm_num)]
      norm_num
    rw [hpow, ← mul_assoc] at hcast
    exact (mul_right_cancel₀ (by norm_num) hcast).symm

/-- An integer up to `2 ^ 53`, given to more binary places than it has, is not changed by rounding. -/
theorem normalize_int {n : Int} (hn : n.natAbs ≤ 2 ^ 53) {k : Nat} (hk : 52 ≤ k) :
    Representable (UnpackedFloat.normalize Format.binary64 (n * 2 ^ k) (-k) .positive) ∧
      unpackedRational? (UnpackedFloat.normalize Format.binary64 (n * 2 ^ k) (-k) .positive) = some (n : ℚ) := by
  have hpow : (0 : Int) < 2 ^ k := by positivity
  rcases lt_trichotomy n 0 with hneg | rfl | hpos
  · obtain ⟨m, e, hcan, hround, hval⟩ := round_nat (by omega : 0 < n.natAbs) hn hk .negative
    have hcmp : compare (n * 2 ^ k) 0 = .lt :=
      Int.compare_eq_lt.2 (Int.mul_neg_of_neg_of_pos hneg hpow)
    have habs : (-(n * 2 ^ k)).toNat = n.natAbs * 2 ^ k := by
      rw [← Int.neg_mul, show -n = n.natAbs by omega]
      norm_cast
    have hn' : ((n.natAbs : Nat) : ℚ) = -n := by
      rw [← Int.cast_natCast, show ((n.natAbs : Nat) : Int) = -n by omega, Int.cast_neg]
    rw [UnpackedFloat.normalize, hcmp, habs]
    simp only [hround]
    refine ⟨hcan, ?_⟩
    rw [unpackedRational?, Sign.apply, Int.cast_neg, Int.cast_natCast, neg_mul, hval, hn', neg_neg]
  · rw [Int.zero_mul]
    exact ⟨trivial, by simp [UnpackedFloat.normalize, unpackedRational?]⟩
  · obtain ⟨m, e, hcan, hround, hval⟩ := round_nat (by omega : 0 < n.natAbs) hn hk .positive
    have hcmp : compare (n * 2 ^ k) 0 = .gt := Int.compare_eq_gt.2 (Int.mul_pos hpos hpow)
    have habs : (n * 2 ^ k).toNat = n.natAbs * 2 ^ k := by
      rw [show n = n.natAbs by omega]
      norm_cast
    have hn' : ((n.natAbs : Nat) : ℚ) = n := by
      rw [← Int.cast_natCast, show ((n.natAbs : Nat) : Int) = n by omega]
    rw [UnpackedFloat.normalize, hcmp, habs]
    simp only [hround]
    refine ⟨hcan, ?_⟩
    rw [unpackedRational?, Sign.apply, Int.cast_natCast, hval, hn']

/-! ### One less -/

theorem apply_shiftLeft (s : Sign) (m k : Nat) : s.apply (m <<< k : Nat) = s.apply m * 2 ^ k := by
  rw [Nat.shiftLeft_eq]
  cases s <;> simp [Sign.apply]

/-- The aligned mantissas of an integer and one differ by a multiple of the integer's predecessor. -/
theorem sub_one_aligned {s : Sign} {m : Nat} {e n : Int} (h : (s.apply m : ℚ) * 2 ^ e = n) {k : Nat}
    (hk : 52 ≤ k) (he : -(k : Int) ≤ e) :
    s.apply m * 2 ^ (e + k).toNat - 2 ^ 52 * 2 ^ (k - 52) = (n - 1) * 2 ^ k := by
  have hone : (2 : Int) ^ 52 * 2 ^ (k - 52) = 2 ^ k := by
    rw [← pow_add]
    congr 1
    omega
  have hscaled : s.apply m * 2 ^ (e + k).toNat = n * 2 ^ k := by
    have hpow : (2 : ℚ) ^ (e + k).toNat = 2 ^ e * 2 ^ k := by
      rw [← zpow_natCast, show (((e + k).toNat : Nat) : Int) = e + k by omega, zpow_add₀ (by norm_num),
        zpow_natCast]
    have hcast : (s.apply m : ℚ) * 2 ^ (e + k).toNat = n * 2 ^ k := by
      rw [hpow, ← mul_assoc, h]
    exact_mod_cast hcast
  rw [hscaled, hone, sub_mul, one_mul]

theorem unpackedRational?_sub_one {u : UnpackedFloat} {n : Int}
    (h : unpackedRational? u = some (n : ℚ)) (hn : n.natAbs < 2 ^ 53) :
    Representable (UnpackedFloat.sub Format.binary64 u unpackedOne) ∧
      unpackedRational? (UnpackedFloat.sub Format.binary64 u unpackedOne) = some ((n - 1 : Int) : ℚ) := by
  cases u with
  | zero s =>
    have hzero : n = 0 := by
      have hcast : (0 : ℚ) = n := Option.some.inj h
      exact_mod_cast hcast.symm
    subst hzero
    refine ⟨⟨by decide, by decide, by decide, by decide, .inl (by decide)⟩, ?_⟩
    show some (((-(2 ^ 52 : Nat) : ℤ) : ℚ) * 2 ^ (-52 : ℤ)) = _
    norm_num
  | finite s m e hm =>
    obtain ⟨k, hmin⟩ : ∃ k : Nat, min e (-52) = -(k : Int) := ⟨(-min e (-52)).toNat, by omega⟩
    have hk : 52 ≤ k := by omega
    have hshift : (e - -(k : Int)).toNat = (e + k).toNat := by omega
    have hshift' : (-52 - -(k : Int)).toNat = k - 52 := by omega
    have haligned := sub_one_aligned (Option.some.inj h) hk (by omega)
    have hsub : UnpackedFloat.sub Format.binary64 (.finite s m e hm) unpackedOne =
        UnpackedFloat.normalize Format.binary64 ((n - 1) * 2 ^ k) (-k) .positive := by
      simp only [UnpackedFloat.sub, unpackedOne, hmin, decreaseExponent, hshift, hshift', apply_shiftLeft]
      rw [← haligned]
      rfl
    rw [hsub]
    exact normalize_int (by omega) hk
  | _ => exact absurd h (Option.some_ne_none _).symm

/-- Going down by one from an integer of magnitude below `2 ^ 53` is exact. -/
theorem rational?_sub_one {c : Float} {n : Int} (h : rational? c = some (n : ℚ))
    (hn : n.natAbs < 2 ^ 53) : rational? (c - Arithmetic.one) = some ((n - 1 : Int) : ℚ) := by
  obtain ⟨hrep, hval⟩ := unpackedRational?_sub_one h hn
  show unpackedRational? (Float.Model.pack _).unpack = _
  have hunpacked := unpack_pack hrep
  rw [← hunpacked] at hval
  exact hval

end ExprCalculus
