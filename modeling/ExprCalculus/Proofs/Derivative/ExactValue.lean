import ExprCalculus.Proofs.Derivative.Rules
import ExprCalculus.Proofs.Number.ExactInteger

/-!
# Exact values of expressions

The value of an expression in a commutative ring, with every float read as the rational that it is: no
rounding, division only by units, powers only with integer exponents. `ExactArithmetic.plain` works in a
field, `ExactArithmetic.dual` in the dual numbers over it.
-/

namespace ExprCalculus

open TrivSqZeroExt DualNumber

/-- A commutative ring with a place for rational numbers and with functions for sine and cosine. -/
structure ExactArithmetic (A : Type*) where
  ofRational : ℚ → A
  sin : A → A
  cos : A → A

namespace ExactArithmetic

variable {K : Type*} [Field K]

def plain (S C : K → K) : ExactArithmetic K where
  ofRational q := q
  sin := S
  cos := C

/-- Arithmetic with dual numbers, where `C` counts as the derivative of `S` and `-S` as that of `C`. -/
def dual (S C : K → K) : ExactArithmetic K[ε] where
  ofRational q := inl (q : K)
  sin z := inl (S z.fst) + inr (C z.fst * z.snd)
  cos z := inl (C z.fst) - inr (S z.fst * z.snd)

end ExactArithmetic

section Ring

variable {A : Type*} [CommRing A]

open scoped Classical in
noncomputable def quotient? (a b : A) : Option A := if IsUnit b then some (a * Ring.inverse b) else none

open scoped Classical in
/-- An integer power; for a negative exponent the base must be a unit. -/
noncomputable def integerPower? (a : A) : ℤ → Option A
  | .ofNat k => some (a ^ k)
  | .negSucc k => if IsUnit a then some (Ring.inverse a ^ (k + 1)) else none

end Ring

/-- The integer that a float is. -/
def integer? (x : Float) : Option ℤ :=
  (rational? x).bind fun q => if q.den = 1 then some q.num else none

theorem integer?_eq_some_iff {x : Float} {n : ℤ} : integer? x = some n ↔ rational? x = some (n : ℚ) := by
  cases h : rational? x with
  | none => simp [integer?, h]
  | some q =>
    simp only [integer?, h, Option.bind_some, Option.some.injEq]
    constructor
    · intro hn
      split_ifs at hn with hden
      obtain rfl := Option.some.inj hn
      exact (Rat.coe_int_num_of_den_eq_one hden).symm
    · intro heq
      subst heq
      simp

namespace Expr

variable {A : Type*} [CommRing A]

/-- The exact value, if there is one. Names that are no operator in use have the values of the environment. -/
noncomputable def exactValue (M : ExactArithmetic A) (ops : OperatorSet) (env : String → Option A) :
    Expr Float → Option A
  | empty => none
  | node (.number c) _ _ => (rational? c).map M.ofRational
  | node (.symbol name) l r =>
    match ops.find? name with
    | none => env name
    | some op => do
      let a ← l.exactValue M ops env
      match op with
      | .addition => return a + (← r.exactValue M ops env)
      | .subtraction => return a - (← r.exactValue M ops env)
      | .multiplication => return a * (← r.exactValue M ops env)
      | .division => quotient? a (← r.exactValue M ops env)
      | .power => (r.literal?.bind integer?).bind (integerPower? a)
      | .sine => return M.sin a
      | .cosine => return M.cos a

section Operators

open Operator

variable {M : ExactArithmetic A} {ops : OperatorSet} {env : String → Option A} {l r : Expr Float} {a b : A}

theorem exactValue_atom {c : Float} {q : ℚ} (hc : rational? c = some q) :
    (node (.number c) l r).exactValue M ops env = some (M.ofRational q) := by
  simp [exactValue, hc]

theorem exactValue_number {c : Float} {q : ℚ} (hc : rational? c = some q) :
    (number c).exactValue M ops env = some (M.ofRational q) := exactValue_atom hc

theorem exactValue_name {name : String} (h : ops.find? name = none) :
    (node (.symbol name) l r).exactValue M ops env = env name := by
  simp [exactValue, h]

theorem exactValue_addition (h : ops.contains addition = true) (hl : l.exactValue M ops env = some a)
    (hr : r.exactValue M ops env = some b) :
    (addition.tree l r).exactValue M ops env = some (a + b) := by
  simp [tree, exactValue, OperatorSet.find?_symbol h, hl, hr]

theorem exactValue_subtraction (h : ops.contains subtraction = true)
    (hl : l.exactValue M ops env = some a) (hr : r.exactValue M ops env = some b) :
    (subtraction.tree l r).exactValue M ops env = some (a - b) := by
  simp [tree, exactValue, OperatorSet.find?_symbol h, hl, hr]

theorem exactValue_multiplication (h : ops.contains multiplication = true)
    (hl : l.exactValue M ops env = some a) (hr : r.exactValue M ops env = some b) :
    (multiplication.tree l r).exactValue M ops env = some (a * b) := by
  simp [tree, exactValue, OperatorSet.find?_symbol h, hl, hr]

theorem exactValue_division (h : ops.contains division = true)
    (hl : l.exactValue M ops env = some a) (hr : r.exactValue M ops env = some b) :
    (division.tree l r).exactValue M ops env = quotient? a b := by
  simp [tree, exactValue, OperatorSet.find?_symbol h, hl, hr]

theorem exactValue_power (h : ops.contains power = true) (hl : l.exactValue M ops env = some a)
    {c : Float} {n : ℤ} (hc : rational? c = some (n : ℚ)) :
    (power.tree l (number c)).exactValue M ops env = integerPower? a n := by
  have hlit : (number c).literal? = some c := literal?_eq_some_iff.2 rfl
  simp [tree, exactValue, OperatorSet.find?_symbol h, hl, hlit, integer?_eq_some_iff.2 hc]

theorem exactValue_sine (h : ops.contains sine = true) (hl : l.exactValue M ops env = some a) :
    (sine.tree l r).exactValue M ops env = some (M.sin a) := by
  simp [tree, exactValue, OperatorSet.find?_symbol h, hl]

theorem exactValue_cosine (h : ops.contains cosine = true) (hl : l.exactValue M ops env = some a) :
    (cosine.tree l r).exactValue M ops env = some (M.cos a) := by
  simp [tree, exactValue, OperatorSet.find?_symbol h, hl]

end Operators

end Expr

/-! ### Quotients and powers in a field and in its dual numbers -/

section Field

variable {K : Type*} [Field K]

theorem quotient?_field {a b : K} (h : b ≠ 0) : quotient? a b = some (a / b) := by
  rw [quotient?, if_pos (isUnit_iff_ne_zero.2 h), Ring.inverse_eq_inv, div_eq_mul_inv]

theorem integerPower?_field {a : K} {n : ℤ} (h : a ≠ 0 ∨ 0 ≤ n) : integerPower? a n = some (a ^ n) := by
  cases n with
  | ofNat k => simp [integerPower?]
  | negSucc k =>
    have ha : a ≠ 0 := h.resolve_right (by omega)
    rw [integerPower?, if_pos (isUnit_iff_ne_zero.2 ha), Ring.inverse_eq_inv, zpow_negSucc, inv_pow]

theorem isUnit_dual {z : K[ε]} (h : z.fst ≠ 0) : IsUnit z :=
  isUnit_iff_isUnit_fst.2 (isUnit_iff_ne_zero.2 h)

theorem inverse_dual {z : K[ε]} (h : z.fst ≠ 0) : Ring.inverse z = z⁻¹ := by
  calc Ring.inverse z = Ring.inverse z * (z * z⁻¹) := by rw [TrivSqZeroExt.mul_inv_cancel h, mul_one]
    _ = Ring.inverse z * z * z⁻¹ := (mul_assoc _ _ _).symm
    _ = z⁻¹ := by rw [Ring.inverse_mul_cancel z (isUnit_dual h), one_mul]

theorem quotient?_dual {z w : K[ε]} (h : w.fst ≠ 0) :
    ∃ q : K[ε], quotient? z w = some q ∧ q.fst = z.fst / w.fst ∧
      q.snd = (z.snd * w.fst - z.fst * w.snd) / (w.fst * w.fst) := by
  refine ⟨z * w⁻¹, ?_, ?_, ?_⟩
  · rw [quotient?, if_pos (isUnit_dual h), inverse_dual h]
  · rw [fst_mul, fst_inv, div_eq_mul_inv]
  · rw [DualNumber.snd_mul, fst_inv, snd_inv]
    simp only [smul_eq_mul, MulOpposite.smul_eq_mul_unop, MulOpposite.unop_op]
    field_simp
    ring

theorem integerPower?_dual {z : K[ε]} {n : ℤ} (h : z.fst ≠ 0 ∨ 0 < n) :
    ∃ w : K[ε], integerPower? z n = some w ∧ w.fst = z.fst ^ n ∧
      w.snd = n * z.fst ^ (n - 1) * z.snd := by
  cases n with
  | ofNat k =>
    refine ⟨z ^ k, rfl, ?_, ?_⟩
    · rw [fst_pow, Int.ofNat_eq_natCast, zpow_natCast]
    · rw [snd_pow]
      cases k with
      | zero => simp
      | succ j =>
        have hpred : Int.ofNat (j + 1) - 1 = (j : ℤ) := by simp
        rw [hpred, zpow_natCast, Nat.pred_succ, smul_eq_mul, nsmul_eq_mul, ← mul_assoc]
        simp
  | negSucc k =>
    have hz : z.fst ≠ 0 := h.resolve_right (by omega)
    refine ⟨z⁻¹ ^ (k + 1), ?_, ?_, ?_⟩
    · rw [integerPower?, if_pos (isUnit_dual hz), inverse_dual hz]
    · rw [fst_pow, fst_inv, zpow_negSucc, inv_pow]
    · have hpred : Int.negSucc k - 1 = -((k + 2 : ℕ) : ℤ) := by omega
      rw [snd_pow, hpred, zpow_neg, zpow_natCast, Nat.pred_succ, fst_inv, snd_inv, Int.cast_negSucc]
      simp only [smul_eq_mul, MulOpposite.smul_eq_mul_unop, MulOpposite.unop_op, nsmul_eq_mul,
        inv_pow]
      field_simp
      ring

end Field
end ExprCalculus
