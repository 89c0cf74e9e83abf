import ExprCalculus.Number.Binary64
import ExprCalculus.Proofs.Derivative.Rules
import Mathlib.Tactic.Ring

/-!
# How much derivatives grow

The rules for products and quotients copy operands, and the rules above them copy these copies again. But no copy is
differentiated: beside the derivatives of the operands, what a rule builds is bounded by the size of the operands. So
the size of a derivative grows at most with the square of the tree's size, and its depth with the depth.
-/

namespace ExprCalculus

variable {ν : Type} [Arithmetic ν]

namespace Expr

open Operator

variable {ops : OperatorSet} {bindings : Bindings ν} {x : String}

theorem size_pos_of_derived {e d : Expr ν} (h : Derived ops bindings x e d) : 0 < e.size := by
  cases h <;> exact size_pos rfl

omit [Arithmetic ν] in
/-- Above operands of sizes `a` and `b`, with derivatives of sizes `c` and `d`, there is room for `4 * a + 4 * b + 2`
more nodes. -/
theorem add_le_two_mul_sq {a b c d k : Nat} (hc : c ≤ 2 * a ^ 2) (hd : d ≤ 2 * b ^ 2)
    (hk : k ≤ 4 * a + 4 * b + 2) : k + c + d ≤ 2 * (1 + a + b) ^ 2 := by
  have hsquare : 2 * (1 + a + b) ^ 2 = 2 * a ^ 2 + 2 * b ^ 2 + (4 * a + 4 * b + 2) + 4 * (a * b) := by ring
  omega

theorem size_le_of_derived {e d : Expr ν} (h : Derived ops bindings x e d) : d.size ≤ 2 * e.size ^ 2 := by
  induction h with
  | number => exact add_le_two_mul_sq (k := 1) (Nat.zero_le _) (Nat.zero_le _) (by omega)
  | «variable» => exact add_le_two_mul_sq (k := 1) (Nat.zero_le _) (Nat.zero_le _) (by omega)
  | sum _ _ _ ihu ihv =>
    have hroom := add_le_two_mul_sq (k := 1) ihu ihv (by omega)
    simpa only [size_tree] using hroom
  | difference _ _ _ ihu ihv =>
    have hroom := add_le_two_mul_sq (k := 1) ihu ihv (by omega)
    simpa only [size_tree] using hroom
  | @product u v du dv _ _ hu _ ihu ihv =>
    have hpos := size_pos_of_derived hu
    have hroom := add_le_two_mul_sq (k := 3 + u.size + v.size) ihu ihv (by omega)
    simp only [size_tree]
    omega
  | @quotient u v du dv _ _ _ hu _ ihu ihv =>
    -- The numerator is copied once, the denominator three times.
    have hpos := size_pos_of_derived hu
    have hroom := add_le_two_mul_sq (k := 5 + u.size + 3 * v.size) ihu ihv (by omega)
    simp only [size_tree]
    omega
  | @power u du c _ _ _ ihu =>
    have hroom := add_le_two_mul_sq (k := 5 + u.size) (b := 1) ihu (Nat.zero_le _) (by omega)
    simp only [size_tree, size_number]
    omega
  | @sine u v du _ _ _ _ ihu =>
    have hroom := add_le_two_mul_sq (k := 2 + u.size) (b := v.size) ihu (Nat.zero_le _) (by omega)
    simp only [size_tree, size]
    omega
  | @cosine u v du _ _ _ hu ihu =>
    have hpos := size_pos_of_derived hu
    have hroom := add_le_two_mul_sq (k := 4 + u.size) (b := v.size) ihu (Nat.zero_le _) (by omega)
    simp only [size_tree, size_number, size]
    omega

theorem depth_le_of_derived {e d : Expr ν} (h : Derived ops bindings x e d) : d.depth + 2 ≤ 3 * e.depth := by
  induction h with
  | number =>
    simp only [depth_number, depth]
    omega
  | «variable» =>
    simp only [depth_number, depth]
    omega
  | sum _ _ _ ihu ihv =>
    simp only [depth_tree]
    omega
  | difference _ _ _ ihu ihv =>
    simp only [depth_tree]
    omega
  | product _ _ _ _ ihu ihv =>
    simp only [depth_tree]
    omega
  | quotient _ _ _ _ _ ihu ihv =>
    simp only [depth_tree]
    omega
  | power _ _ _ ihu =>
    simp only [depth_tree, depth_number]
    omega
  | sine _ _ _ _ ihu =>
    simp only [depth_tree, depth]
    omega
  | cosine _ _ _ _ ihu =>
    simp only [depth_tree, depth_number, depth]
    omega

omit [Arithmetic ν] in
/-- `x / (x / … / x)`, with `n` quotients one inside the other. -/
def quotients (x : String) : Nat → Expr ν
  | 0 => symbol x
  | n + 1 => division.tree (symbol x) (quotients x n)

/-- Trees of every depth have derivatives that are as deep as the bound allows. -/
theorem exists_derived_quotients {c : ν} (hdiv : ops.contains division = true)
    (hmul : ops.contains multiplication = true) (hsub : ops.contains subtraction = true)
    (hfree : ops.find? x = none) (hbound : bindings.get? x = some c) (n : Nat) :
    ∃ d, Derived ops bindings x (quotients x n) d ∧ d.depth + 2 = 3 * (quotients x n : Expr ν).depth := by
  induction n with
  | zero => exact ⟨_, .variable hfree hbound, rfl⟩
  | succ n ih =>
    obtain ⟨d, hd, hdepth⟩ := ih
    refine ⟨_, .quotient hdiv hmul hsub (.variable hfree hbound) hd, ?_⟩
    -- The longest way leads through the quotient, the difference and a product to the derivative of the denominator.
    have hleaf : (symbol x : Expr ν).depth = 1 := rfl
    simp only [quotients, depth_tree, depth_number, hleaf]
    omega

/-- A derivative has at most twice the square of the tree's size, and less than three times its depth. -/
theorem growth_of_differentiate {e d : Expr ν} (h : e.differentiate ops bindings x = .ok d) :
    d.size ≤ 2 * e.size ^ 2 ∧ d.depth ≤ 3 * e.depth - 2 := by
  have hderived := derived_of_derive (differentiate_eq_ok_iff.1 h).2
  have hdepth := depth_le_of_derived hderived
  exact ⟨size_le_of_derived hderived, by omega⟩

theorem growth_of_differentiate_quotients :
    ∃ d, (quotients "x" 2 : Expr Float).differentiate .full ⟨[("x", 1)]⟩ "x" = .ok d ∧
      d.size ≤ 2 * (quotients "x" 2 : Expr Float).size ^ 2 ∧
      d.depth ≤ 3 * (quotients "x" 2 : Expr Float).depth - 2 := by
  obtain ⟨d, hd⟩ : ∃ d, (quotients "x" 2 : Expr Float).differentiate .full ⟨[("x", 1)]⟩ "x" = .ok d := ⟨_, rfl⟩
  exact ⟨d, hd, growth_of_differentiate hd⟩

end Expr
end ExprCalculus
