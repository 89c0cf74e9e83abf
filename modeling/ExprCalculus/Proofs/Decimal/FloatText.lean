import ExprCalculus.Decimal.FloatText
import ExprCalculus.Proofs.Decimal.Positional
import ExprCalculus.Proofs.Decimal.Shortest
import ExprCalculus.Proofs.Number.SameValue

/-!
# Numbers survive being written and read

The text of a number is read back as the same number, with one exception: negative infinity is written
`-inf`, and a name takes no sign.
-/

namespace ExprCalculus

open Float.Model UnpackedFloat

/-! ### The fields of a bit pattern -/

section Fields

variable (b : BitVec Format.binary64.numBits)

theorem toNat_unpackMantissa : (unpackMantissa b).toNat = b.toNat % 2 ^ 52 := by
  show ((b.extractLsb 51 0).cast _).toNat = _
  rw [BitVec.toNat_cast, BitVec.extractLsb_toNat]
  rfl

theorem toNat_unpackExponent : (unpackExponent b).toNat = b.toNat / 2 ^ 52 % 2 ^ 11 := by
  show ((b.extractLsb 62 52).cast _).toNat = _
  rw [BitVec.toNat_cast, BitVec.extractLsb_toNat, Nat.shiftRight_eq_div_pow]

theorem toNat_unpackSign : (unpackSign b).toNat = b.toNat / 2 ^ 63 := by
  have hlt : b.toNat < 2 ^ 64 := b.isLt
  show ((b.extractLsb 63 63).cast _).toNat = _
  rw [BitVec.toNat_cast, BitVec.extractLsb_toNat, Nat.shiftRight_eq_div_pow]
  show b.toNat / 2 ^ 63 % 2 ^ 1 = _
  omega

end Fields

/-- The sign of a number, an infinity or a zero. -/
def unpackedSign? : UnpackedFloat → Option Sign
  | .infinity s => some s
  | .zero s => some s
  | .finite s _ _ _ => some s
  | .notANumber => none

theorem unpackedSign?_unpack {b : BitVec Format.binary64.numBits} {s : Sign}
    (h : unpackedSign? (UnpackedFloat.unpack Format.binary64 b) = some s) :
    s = .ofBitVec (unpackSign b) := by
  unfold UnpackedFloat.unpack at h
  dsimp only at h
  split_ifs at h <;> simp only [unpackedSign?, Option.some.injEq, reduceCtorEq] at h <;> exact h.symm

def bitsOf (x : Float) : BitVec Format.binary64.numBits := x.toModel.toBits.toBitVec

theorem Magnitude.ofBits_eq (x : Float) :
    Magnitude.ofBits x.toBits =
      if (unpackExponent (bitsOf x)).toNat = 0 then ⟨(unpackMantissa (bitsOf x)).toNat, -1074⟩
      else ⟨2 ^ 52 + (unpackMantissa (bitsOf x)).toNat, (unpackExponent (bitsOf x)).toNat - 1075⟩ := by
  rw [toNat_unpackMantissa, toNat_unpackExponent]
  rfl

theorem Magnitude.ofBits_of_finite {x : Float} {s : Sign} {m : Nat} {e : Int} {hm : 0 < m}
    (h : x.toModel.unpack = .finite s m e hm) : Magnitude.ofBits x.toBits = ⟨m, e⟩ := by
  have hunpack : UnpackedFloat.unpack Format.binary64 (bitsOf x) = .finite s m e hm := h
  rw [Magnitude.ofBits_eq]
  by_cases hmax : unpackExponent (bitsOf x) = -1#11
  · unfold UnpackedFloat.unpack at hunpack
    dsimp only at hunpack
    rw [if_pos hmax] at hunpack
    split at hunpack <;> cases hunpack
  · by_cases hzero : unpackExponent (bitsOf x) = 0#11
    · have hfield : (unpackExponent (bitsOf x)).toNat = 0 := by rw [hzero]; rfl
      by_cases hmant : unpackMantissa (bitsOf x) = 0#52
      · unfold UnpackedFloat.unpack at hunpack
        dsimp only at hunpack
        rw [if_neg hmax, if_pos hzero, dif_pos hmant] at hunpack
        cases hunpack
      · obtain ⟨_, hsub⟩ := unpack_subnormal hzero hmant
        rw [hsub] at hunpack
        cases hunpack
        rw [if_pos hfield]
    · obtain ⟨_, hnormal⟩ := unpack_normal hmax hzero
      have hfield : (unpackExponent (bitsOf x)).toNat ≠ 0 :=
        fun heq => hzero (BitVec.eq_of_toNat_eq heq)
      rw [hnormal] at hunpack
      cases hunpack
      rw [if_neg hfield]

theorem Decimal.hasMinus_iff {x : Float} {s : Sign} (h : unpackedSign? x.toModel.unpack = some s) :
    Decimal.hasMinus x = true ↔ s = .negative := by
  have hs : s = .ofBitVec (unpackSign (bitsOf x)) := unpackedSign?_unpack h
  have hsign := toNat_unpackSign (bitsOf x)
  have hminus : Decimal.hasMinus x = true ↔ 2 ^ 63 ≤ (bitsOf x).toNat := decide_eq_true_iff
  rw [hminus, hs, Sign.ofBitVec]
  split_ifs with hzero
  · have hsign' : (0 : Nat) = (bitsOf x).toNat / 2 ^ 63 := by
      rw [← hsign, hzero]
      rfl
    simp only [iff_false, not_le]
    omega
  · have hne : (unpackSign (bitsOf x)).toNat ≠ 0 := fun heq => hzero (BitVec.eq_of_toNat_eq heq)
    simp only [iff_true]
    omega

theorem unpack_neg (x : Float) : (-x).toModel.unpack = x.toModel.unpack.neg := by
  have hrep : Representable x.toModel.unpack.neg := by
    have hx := representable_float x
    cases hu : x.toModel.unpack with
    | finite s m e hm =>
      rw [hu] at hx
      exact hx
    | _ => trivial
  exact unpack_pack hrep

namespace Decimal

/-! ### Magnitudes -/

theorem coefficient_eq_zero_of_rational {d : Decimal} (h : d.rational = 0) : d.coefficient = 0 := by
  have hpos : (10 : ℚ) ^ d.exponent ≠ 0 := zpow_ne_zero _ (by norm_num)
  have hcoef : (d.coefficient : ℚ) = 0 := (mul_eq_zero.1 h).resolve_right hpos
  exact_mod_cast hcoef

theorem isInf_eq_true_iff {x : Float} : x.isInf = true ↔ ∃ s, x.toModel.unpack = .infinity s := by
  show x.toModel.unpack.isInf = true ↔ _
  cases x.toModel.unpack <;> simp [UnpackedFloat.isInf]

/-- The float is made of its sign and its magnitude. -/
theorem withSign_eq {x y : Float} {s : Sign} (hx : unpackedSign? x.toModel.unpack = some s)
    (hy : (y.toModel.unpack = x.toModel.unpack ∧ s = .positive) ∨
      (y.toModel.unpack.neg = x.toModel.unpack ∧ s = .negative)) : withSign (hasMinus x) y = x := by
  have hminus := hasMinus_iff hx
  rcases hy with ⟨hunpack, rfl⟩ | ⟨hunpack, rfl⟩
  · have hfalse : hasMinus x = false := by simpa using hminus
    rw [hfalse]
    exact float_eq_of_unpack hunpack
  · have htrue : hasMinus x = true := hminus.2 rfl
    rw [htrue]
    exact float_eq_of_unpack ((unpack_neg y).trans hunpack)

theorem isFinite_cases {x : Float} (hfin : x.isFinite = true) :
    (∃ s, x.toModel.unpack = .zero s) ∨ ∃ s m e hm, x.toModel.unpack = .finite s m e hm := by
  have hunpacked : x.toModel.unpack.isFinite = true := hfin
  cases hu : x.toModel.unpack with
  | zero s => exact .inl ⟨s, rfl⟩
  | finite s m e hm => exact .inr ⟨s, m, e, hm, rfl⟩
  | _ =>
    rw [hu] at hunpacked
    exact absurd hunpacked Bool.false_ne_true

theorem magnitudeText_zero {x : Float} {s : Sign} (hu : x.toModel.unpack = .zero s) :
    magnitudeText x = ['0'] := by
  have hinf : ¬x.isInf = true := by
    rw [isInf_eq_true_iff, hu]
    rintro ⟨s', hs'⟩
    cases hs'
  rw [magnitudeText, if_neg hinf, if_pos (isZero_iff.2 ⟨s, hu⟩)]

theorem magnitudeText_finite {x : Float} {s : Sign} {m : Nat} {e : Int} {hm : 0 < m}
    (hu : x.toModel.unpack = .finite s m e hm) :
    magnitudeText x = (Magnitude.mk m e).interval.shortest.positional := by
  have hinf : ¬x.isInf = true := by
    rw [isInf_eq_true_iff, hu]
    rintro ⟨s', hs'⟩
    cases hs'
  have hnonzero : ¬(x == 0) = true := by
    rw [isZero_iff, hu]
    rintro ⟨s', hs'⟩
    cases hs'
  rw [magnitudeText, if_neg hinf, if_neg hnonzero, Magnitude.ofBits_of_finite hu]

theorem withSign_zero {x y : Float} {s : Sign} (hx : x.toModel.unpack = .zero s)
    (hy : y.toModel.unpack = .zero .positive) : withSign (hasMinus x) y = x := by
  refine withSign_eq (s := s) (by rw [hx]; rfl) ?_
  rw [hx, hy]
  cases s with
  | positive => exact .inl ⟨rfl, rfl⟩
  | negative => exact .inr ⟨rfl, rfl⟩

theorem withSign_finite {x y : Float} {s : Sign} {m : Nat} {e : Int} {hm : 0 < m}
    (hx : x.toModel.unpack = .finite s m e hm) (hy : y.toModel.unpack = .finite .positive m e hm) :
    withSign (hasMinus x) y = x := by
  refine withSign_eq (s := s) (by rw [hx]; rfl) ?_
  rw [hx, hy]
  cases s with
  | positive => exact .inl ⟨rfl, rfl⟩
  | negative => exact .inr ⟨rfl, rfl⟩

/-- The text of a finite magnitude is a numeral, and all decimals of its value are converted back. -/
theorem spells_magnitudeText {x : Float} (hfin : x.isFinite = true) :
    ∃ q, Spells (magnitudeText x) q ∧ ∀ d : Decimal, d.rational = q → withSign (hasMinus x) d.toFloat = x := by
  rcases isFinite_cases hfin with ⟨s, hu⟩ | ⟨s, m, e, hm, hu⟩
  · refine ⟨0, ?_, ?_⟩
    · have hspells := spells_positional ⟨0, 0⟩
      rw [rational, Nat.cast_zero, zero_mul] at hspells
      rw [magnitudeText_zero hu]
      exact hspells
    · intro d hd
      have hzero : d.toFloat = 0 := by
        simp only [toFloat, coefficient_eq_zero_of_rational hd, true_or, if_true]
      rw [hzero]
      exact withSign_zero hu rfl
  · have hcan : Canonical m e := by
      have hrep := representable_float x
      rw [hu] at hrep
      exact hrep
    refine ⟨_, magnitudeText_finite hu ▸ spells_positional _, ?_⟩
    intro d hd
    have hq := contains_shortest hcan
    rw [← hd] at hq
    exact withSign_finite hu (unpack_toFloat hcan hq)

/-! ### Texts -/

theorem splitSign_of_isDigit {c : Char} (hc : isDigit c = true) (rest : List Char) :
    splitSign (c :: rest) = (false, c :: rest) := by
  unfold splitSign
  split
  · rename_i heq
    cases heq
    cases hc
  · rename_i heq
    cases heq
    cases hc
  · rfl

theorem readDecimal?_spells {text : List Char} {q : ℚ} (h : Spells text q) (minus : Bool) :
    ∃ d : Decimal, d.rational = q ∧
      readDecimal? ((if minus then ['-'] else []) ++ text) = some (withSign minus d.toFloat) := by
  obtain ⟨d, hd, hq⟩ := h.read
  refine ⟨d, hq, ?_⟩
  have hsign : splitSign ((if minus then ['-'] else []) ++ text) = (minus, text) := by
    cases minus with
    | true => rfl
    | false =>
      obtain ⟨c, rest, rfl, hc⟩ := h.head
      exact splitSign_of_isDigit hc rest
  simp only [readDecimal?, hsign, hd, Option.map_some]

theorem floatText_of_isFinite {x : Float} (hfin : x.isFinite = true) :
    (floatText x).toList = (if hasMinus x then ['-'] else []) ++ magnitudeText x := by
  have hnan : ¬x.isNaN = true := by
    rw [float_isNaN_iff]
    rcases isFinite_cases hfin with ⟨s, hu⟩ | ⟨s, m, e, hm, hu⟩ <;> simp [hu]
  rw [floatText, if_neg hnan, String.toList_ofList]

theorem not_isFinite_cases {x : Float} (hfin : ¬x.isFinite = true) :
    x = Float.ofBits 0x7ff8000000000000 ∨ x = infinity ∨ x = -infinity := by
  have hunpacked : ¬x.toModel.unpack.isFinite = true := hfin
  cases hu : x.toModel.unpack with
  | notANumber => exact .inl (float_eq_of_unpack hu)
  | infinity s =>
    cases s with
    | positive => exact .inr (.inl (float_eq_of_unpack hu))
    | negative => exact .inr (.inr (float_eq_of_unpack hu))
  | zero s =>
    rw [hu] at hunpacked
    exact absurd rfl hunpacked
  | finite s m e hm =>
    rw [hu] at hunpacked
    exact absurd rfl hunpacked

/-- The text of a number is read as that number, unless it is negative infinity. -/
theorem readToken?_floatText {x : Float} (h : x ≠ -infinity) :
    readToken? (floatText x).toList = some x := by
  by_cases hfin : x.isFinite = true
  · obtain ⟨q, hspells, hconvert⟩ := spells_magnitudeText hfin
    obtain ⟨d, hd, hread⟩ := readDecimal?_spells hspells (hasMinus x)
    rw [floatText_of_isFinite hfin, readToken?, hread, hconvert d hd]
    rfl
  · rcases not_isFinite_cases hfin with rfl | rfl | rfl
    · rfl
    · rfl
    · exact absurd rfl h

end Decimal

end ExprCalculus
