import ExprCalculus.Number.Binary64
import Mathlib

/-!
# Rounding and packing of binary64 numbers

A finite number of the format has one mantissa and one exponent; `Canonical` says which. Rounding leaves
such a number as it is, whatever zeros are appended to its mantissa, and packing loses nothing of it.
-/

namespace ExprCalculus

open Float.Model UnpackedFloat

/-- The mantissa and the exponent by which the format writes a finite number. -/
structure Canonical (m : Nat) (e : Int) : Prop where
  pos : 0 < m
  lt : m < 2 ^ 53
  least : -1074 ≤ e
  greatest : e ≤ 971
  normal : 2 ^ 52 ≤ m ∨ e = -1074

/-- One, as the format writes it. -/
def unpackedOne : UnpackedFloat := .finite .positive (2 ^ 52) (-52) (by decide)

/-! ### Rounding -/

theorem targetExponent_binary64 (t : Int) :
    Format.binary64.targetExponent t = max (t - 53) (-1074) := by
  simp only [Format.targetExponent]
  rfl

theorem log2_mul_two_pow {m : Nat} (hm : 0 < m) (k : Nat) : (m * 2 ^ k).log2 = m.log2 + k := by
  have hm0 : m ≠ 0 := by omega
  have hpos : 0 < 2 ^ k := Nat.two_pow_pos k
  have hlow : 2 ^ m.log2 ≤ m := Nat.log2_self_le hm0
  have hhigh : m < 2 ^ (m.log2 + 1) := Nat.lt_log2_self
  have hne : m * 2 ^ k ≠ 0 := Nat.mul_ne_zero hm0 (by omega)
  refine (Nat.log2_eq_iff hne).2 ⟨?_, ?_⟩
  · rw [Nat.pow_add]
    exact Nat.mul_le_mul_right _ hlow
  · rw [show m.log2 + k + 1 = m.log2 + 1 + k by omega, Nat.pow_add]
    exact Nat.mul_lt_mul_of_pos_right hhigh hpos

/-- With zeros appended until it has 53 bits, an integer is the mantissa of a normal number. -/
theorem canonical_fill {a : Nat} {e : Int} (hpos : 0 < a) (hlog : a.log2 ≤ 52) (hleast : -1074 ≤ e)
    (hgreatest : e ≤ 971) : Canonical (a * 2 ^ (52 - a.log2)) e := by
  have hlow : 2 ^ 52 ≤ a * 2 ^ (52 - a.log2) := by
    have hmul := Nat.mul_le_mul_right (2 ^ (52 - a.log2)) (Nat.log2_self_le (Nat.pos_iff_ne_zero.1 hpos))
    rwa [← Nat.pow_add, show a.log2 + (52 - a.log2) = 52 by omega] at hmul
  have hhigh : a * 2 ^ (52 - a.log2) < 2 ^ 53 := by
    have hmul := Nat.mul_lt_mul_of_pos_right (Nat.lt_log2_self (n := a)) (Nat.two_pow_pos (52 - a.log2))
    rwa [← Nat.pow_add, show a.log2 + 1 + (52 - a.log2) = 53 by omega] at hmul
  exact ⟨by omega, hhigh, hleast, hgreatest, .inl hlow⟩

namespace Canonical

variable {m : Nat} {e : Int}

theorem log2_lt (h : Canonical m e) : m.log2 < 53 :=
  (Nat.log2_lt (by have := h.pos; omega)).2 h.lt

theorem log2_eq (h : Canonical m e) : m.log2 = 52 ∨ e = -1074 := by
  rcases h.normal with hm | he
  · have hm0 : m ≠ 0 := by omega
    exact .inl ((Nat.log2_eq_iff hm0).2 ⟨hm, h.lt⟩)
  · exact .inr he

theorem targetExponent (h : Canonical m e) (k : Nat) :
    Format.binary64.targetExponent (totalExponent (m * 2 ^ k) (e - k)) = e := by
  have hlt := h.log2_lt
  have hleast := h.least
  rw [targetExponent_binary64, totalExponent, log2_mul_two_pow h.pos]
  rcases h.log2_eq with hlog | he <;> omega

end Canonical

theorem shiftRight_zeros (m k : Nat) :
    (ExtendedMantissa.mk (m * 2 ^ k) false false) >>> k = ⟨m, false, false⟩ := by
  induction k generalizing m with
  | zero => simp [HShiftRight.hShiftRight, Nat.repeat]
  | succ k ih =>
    have hstep : (ExtendedMantissa.mk (m * 2 ^ (k + 1)) false false) >>> (k + 1) =
        ((ExtendedMantissa.mk (m * 2 * 2 ^ k) false false) >>> k).shiftRightOne := by
      rw [show m * 2 ^ (k + 1) = m * 2 * 2 ^ k by rw [Nat.pow_succ]; ac_rfl]
      rfl
    rw [hstep, ih]
    simp [ExtendedMantissa.shiftRightOne]

theorem shiftToTargetExponent_canonical {m : Nat} {e : Int} (h : Canonical m e) (k : Nat) :
    shiftToTargetExponent Format.binary64 (m * 2 ^ k) (e - k) .exact = (⟨m, false, false⟩, e) := by
  unfold shiftToTargetExponent shiftToExponent
  rw [h.targetExponent k]
  have hk : (e - (e - k)).toNat = k := by omega
  have he : e - (k : Int) + k = e := by omega
  simp only [hk, he, ExtendedMantissa.ofMantissaAndAccuracy, shiftRight_zeros]

/-- Rounding finds a canonical number again behind any number of appended zeros. -/
theorem roundWithAccuracy_canonical {m : Nat} {e : Int} (h : Canonical m e) (s : Sign) (k : Nat) :
    roundWithAccuracy Format.binary64 s (m * 2 ^ k) (e - k) .exact = .finite s m e h.pos := by
  have hsecond : shiftToTargetExponent Format.binary64 m e .exact = (⟨m, false, false⟩, e) := by
    simpa using shiftToTargetExponent_canonical h 0
  have hm0 : m ≠ 0 := Nat.pos_iff_ne_zero.1 h.pos
  unfold roundWithAccuracy
  rw [shiftToTargetExponent_canonical h k]
  show (match shiftToTargetExponent Format.binary64 m e .exact with
    | (em, e') => if h : em.mantissa = 0 then UnpackedFloat.zero s
      else .finite s em.mantissa e' (Nat.pos_of_ne_zero h)) = _
  rw [hsecond]
  exact dif_neg hm0

/-! ### Packing -/

/-- The finite numbers among these are canonical. -/
def Representable : UnpackedFloat → Prop
  | .finite _ m e _ => Canonical m e
  | _ => True

theorem toNat_implicit_bit (v : BitVec 52) : (1#1 ++ v).toNat = 2 ^ 52 + v.toNat := by
  rw [BitVec.toNat_append]
  show 2 ^ 52 ||| v.toNat = 2 ^ 52 + v.toNat
  rw [Nat.or_comm, Nat.or_two_pow_eq_add_of_lt v.isLt, Nat.add_comm]

theorem exponentBias_add : (Format.binary64.exponentBias : Int) + (52 : Nat) = 1075 := rfl

theorem finite_congr {s s' : Sign} {m m' : Nat} {e e' : Int} {h : 0 < m} {h' : 0 < m'} (hs : s = s')
    (hm : m = m') (he : e = e') : UnpackedFloat.finite s m e h = .finite s' m' e' h' := by
  subst hs hm he
  rfl

section Fields

variable {b : BitVec Format.binary64.numBits}

theorem unpack_normal (hmax : unpackExponent b ≠ -1#11) (hzero : unpackExponent b ≠ 0#11) :
    ∃ h, UnpackedFloat.unpack Format.binary64 b = .finite (.ofBitVec (unpackSign b))
      (2 ^ 52 + (unpackMantissa b).toNat) ((unpackExponent b).toNat - 1075) h := by
  refine ⟨by omega, ?_⟩
  unfold UnpackedFloat.unpack
  dsimp only
  rw [if_neg hmax, if_neg hzero]
  exact finite_congr rfl (toNat_implicit_bit _) rfl

theorem unpack_subnormal (hzero : unpackExponent b = 0#11) (hne : unpackMantissa b ≠ 0#52) :
    ∃ h, UnpackedFloat.unpack Format.binary64 b =
      .finite (.ofBitVec (unpackSign b)) (unpackMantissa b).toNat (-1074) h := by
  have hpos : 0 < (unpackMantissa b).toNat :=
    Nat.pos_of_ne_zero fun heq => hne (BitVec.eq_of_toNat_eq heq)
  have hmax : unpackExponent b ≠ -1#11 := by
    rw [hzero]
    decide
  refine ⟨hpos, ?_⟩
  unfold UnpackedFloat.unpack
  dsimp only
  rw [if_neg hmax, if_pos hzero, dif_neg hne]
  refine finite_congr rfl rfl ?_
  rw [hzero]
  rfl

theorem representable_unpack (b : BitVec Format.binary64.numBits) :
    Representable (UnpackedFloat.unpack Format.binary64 b) := by
  have hm : (unpackMantissa b).toNat < 2 ^ 52 := (unpackMantissa b).isLt
  have he : (unpackExponent b).toNat < 2 ^ 11 := (unpackExponent b).isLt
  by_cases hmax : unpackExponent b = -1#11
  · unfold UnpackedFloat.unpack
    dsimp only
    rw [if_pos hmax]
    split <;> trivial
  · by_cases hzero : unpackExponent b = 0#11
    · by_cases hmant : unpackMantissa b = 0#52
      · unfold UnpackedFloat.unpack
        dsimp only
        rw [if_neg hmax, if_pos hzero, dif_pos hmant]
        trivial
      · obtain ⟨hpos, hunpack⟩ := unpack_subnormal hzero hmant
        rw [hunpack]
        exact ⟨hpos, by omega, by omega, by omega, .inr rfl⟩
    · obtain ⟨hpos, hunpack⟩ := unpack_normal hmax hzero
      have hmax' : (unpackExponent b).toNat ≠ 2047 := fun h => hmax (BitVec.eq_of_toNat_eq h)
      have hzero' : (unpackExponent b).toNat ≠ 0 := fun h => hzero (BitVec.eq_of_toNat_eq h)
      rw [hunpack]
      exact ⟨hpos, by omega, by omega, by omega, .inl (by omega)⟩

end Fields

theorem pack_finite {m : Nat} {e : Int} (s : Sign) (h : 0 < m) :
    UnpackedFloat.pack Format.binary64 (.finite s m e h) =
      if 2 ^ 11 ≤ (e + Format.binary64.exponentBias + (52 : Nat)).toNat + 1 then
        packedInfinity Format.binary64 s
      else if m.log2 + 1 = 53 then
        packComponents Format.binary64 s
          (BitVec.ofNat 11 (e + Format.binary64.exponentBias + (52 : Nat)).toNat) (BitVec.ofNat 52 m)
      else packComponents Format.binary64 s 0#11 (BitVec.ofNat 52 m) := rfl

theorem unpack_packComponents_normal {m : Nat} {e : Int} (s : Sign) (hlow : 2 ^ 52 ≤ m)
    (hlt : m < 2 ^ 53) (hleast : -1074 ≤ e) (hgreatest : e ≤ 971) (h : 0 < m) :
    UnpackedFloat.unpack Format.binary64 (packComponents Format.binary64 s
      (BitVec.ofNat 11 (e + 1075).toNat) (BitVec.ofNat 52 m)) = .finite s m e h := by
  have hexponent : unpackExponent (packComponents Format.binary64 s
      (BitVec.ofNat 11 (e + 1075).toNat) (BitVec.ofNat 52 m)) = BitVec.ofNat 11 (e + 1075).toNat :=
    unpackExponent_packComponents
  have hmantissa : unpackMantissa (packComponents Format.binary64 s
      (BitVec.ofNat 11 (e + 1075).toNat) (BitVec.ofNat 52 m)) = BitVec.ofNat 52 m :=
    unpackMantissa_packComponents
  have hexp : (BitVec.ofNat 11 (e + 1075).toNat).toNat = (e + 1075).toNat := by
    rw [BitVec.toNat_ofNat]
    omega
  have hmant : (BitVec.ofNat 52 m).toNat = m - 2 ^ 52 := by
    rw [BitVec.toNat_ofNat]
    omega
  have hmax : BitVec.ofNat 11 (e + 1075).toNat ≠ -1#11 := by
    intro heq
    have hval : (e + 1075).toNat = 2047 := hexp.symm.trans (congrArg BitVec.toNat heq)
    omega
  have hzero : BitVec.ofNat 11 (e + 1075).toNat ≠ 0#11 := by
    intro heq
    have hval : (e + 1075).toNat = 0 := hexp.symm.trans (congrArg BitVec.toNat heq)
    omega
  obtain ⟨_, hunpack⟩ := unpack_normal (by rw [hexponent]; exact hmax) (by rw [hexponent]; exact hzero)
  refine hunpack.trans (finite_congr ?_ ?_ ?_)
  · rw [unpackSign_packComponents, Sign.ofBitVec_toBitVec]
  · rw [hmantissa, hmant]
    omega
  · rw [hexponent, hexp]
    omega

theorem unpack_packComponents_subnormal {m : Nat} (s : Sign) (hlt : m < 2 ^ 52) (h : 0 < m) :
    UnpackedFloat.unpack Format.binary64
      (packComponents Format.binary64 s 0#11 (BitVec.ofNat 52 m)) = .finite s m (-1074) h := by
  have hexponent :
      unpackExponent (packComponents Format.binary64 s 0#11 (BitVec.ofNat 52 m)) = 0#11 :=
    unpackExponent_packComponents
  have hmantissa : unpackMantissa (packComponents Format.binary64 s 0#11 (BitVec.ofNat 52 m)) =
      BitVec.ofNat 52 m := unpackMantissa_packComponents
  have hmant : (BitVec.ofNat 52 m).toNat = m := by
    rw [BitVec.toNat_ofNat]
    omega
  have hne : BitVec.ofNat 52 m ≠ 0#52 := by
    intro heq
    have hval : m = 0 := hmant.symm.trans (congrArg BitVec.toNat heq)
    omega
  obtain ⟨_, hunpack⟩ := unpack_subnormal hexponent (by rw [hmantissa]; exact hne)
  refine hunpack.trans (finite_congr ?_ ?_ rfl)
  · rw [unpackSign_packComponents, Sign.ofBitVec_toBitVec]
  · rw [hmantissa, hmant]

theorem unpack_pack_finite {m : Nat} {e : Int} (h : Canonical m e) (s : Sign) :
    UnpackedFloat.unpack Format.binary64 (UnpackedFloat.pack Format.binary64 (.finite s m e h.pos)) =
      .finite s m e h.pos := by
  have hlt := h.lt
  have hleast := h.least
  have hgreatest := h.greatest
  have hbiased : (e + Format.binary64.exponentBias + (52 : Nat)).toNat = (e + 1075).toNat := by
    rw [Int.add_assoc, exponentBias_add]
  have hfits : ¬2 ^ 11 ≤ (e + 1075).toNat + 1 := by omega
  rw [pack_finite, hbiased, if_neg hfits]
  by_cases hlog : m.log2 + 1 = 53
  · rw [if_pos hlog]
    have hself : 2 ^ m.log2 ≤ m := Nat.log2_self_le (Nat.pos_iff_ne_zero.1 h.pos)
    rw [show m.log2 = 52 by omega] at hself
    exact unpack_packComponents_normal s hself hlt hleast hgreatest h.pos
  · rw [if_neg hlog]
    have hlog' := h.log2_lt
    have hself : m < 2 ^ (m.log2 + 1) := Nat.lt_log2_self
    have hpow : 2 ^ (m.log2 + 1) ≤ 2 ^ 52 := Nat.pow_le_pow_right (by omega) (by omega)
    have hsub : m < 2 ^ 52 := by omega
    have hexp : -1074 = e := by
      rcases h.normal with hm | he
      · omega
      · exact he.symm
    exact (unpack_packComponents_subnormal s hsub h.pos).trans (finite_congr rfl rfl hexp)

/-- Packing loses nothing of a number that the format can hold. -/
theorem unpack_pack {u : UnpackedFloat} (h : Representable u) : (Float.Model.pack u).unpack = u := by
  cases u with
  | notANumber => rfl
  | infinity s => cases s <;> rfl
  | zero s => cases s <;> rfl
  | finite s m e hm => exact unpack_pack_finite h s

end ExprCalculus
