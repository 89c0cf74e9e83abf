import ExprCalculus.Proofs.Simplify.SweptValue
import Mathlib.Tactic.SplitIfs

/-!
# Identity elimination keeps the value of finite computations

Where every subtree has a finite value, a tree and what identity elimination makes of it have equal values.
What that takes of the numbers is `IdentityLaws`: the identities themselves and that the operators
respect numeric equality as long as results are finite. The induction of
`ExprCalculus.Proofs.Simplify.SweptValue` compares a node after its children have been rewritten, so a rule may
fire on a literal that an earlier step has left there.
-/

namespace ExprCalculus

variable {ν : Type} [Arithmetic ν]

/-- The laws by which identities keep values. `Finite` tells the numbers for which they hold. -/
structure IdentityLaws (ν : Type) [Arithmetic ν] (Finite : ν → Prop) : Prop where
  beq_self : ∀ {x : ν}, Finite x → (x == x) = true
  beq_symm : ∀ {x y : ν}, (x == y) = true → (y == x) = true
  beq_trans : ∀ {x y z : ν}, (x == y) = true → (y == z) = true → (x == z) = true
  finite_of_beq : ∀ {x y : ν}, (x == y) = true → Finite x → Finite y
  finite_zero : Finite Arithmetic.zero
  finite_one : Finite Arithmetic.one
  /-- Equal operands give equal results, if the result is finite. -/
  apply_congr : ∀ (op : Operator) {x x' y y' : ν}, (x == x') = true → (y == y') = true →
    Finite (op.apply x y) → (op.apply x y == op.apply x' y') = true
  add_zero : ∀ {x : ν}, Finite x → (x + Arithmetic.zero == x) = true
  zero_add : ∀ {x : ν}, Finite x → (Arithmetic.zero + x == x) = true
  sub_zero : ∀ {x : ν}, Finite x → (x - Arithmetic.zero == x) = true
  mul_one : ∀ {x : ν}, Finite x → (x * Arithmetic.one == x) = true
  one_mul : ∀ {x : ν}, Finite x → (Arithmetic.one * x == x) = true
  mul_zero : ∀ {x : ν}, Finite x → (x * Arithmetic.zero == Arithmetic.zero) = true
  zero_mul : ∀ {x : ν}, Finite x → (Arithmetic.zero * x == Arithmetic.zero) = true
  div_one : ∀ {x : ν}, Finite x → (x / Arithmetic.one == x) = true
  zero_div : ∀ {x : ν}, Finite x → (x == Arithmetic.zero) = false →
    (Arithmetic.zero / x == Arithmetic.zero) = true
  zero_div_zero : ¬Finite (Arithmetic.zero / Arithmetic.zero : ν)
  pow_zero : ∀ {x : ν}, Finite x → (Arithmetic.pow x Arithmetic.zero == Arithmetic.one) = true
  pow_one : ∀ {x : ν}, Finite x → (Arithmetic.pow x Arithmetic.one == x) = true
  one_pow : ∀ {x : ν}, Finite x → (Arithmetic.pow Arithmetic.one x == Arithmetic.one) = true
  zero_pow : ∀ {x : ν}, Finite x → (x == Arithmetic.zero) = false →
    (Arithmetic.pow Arithmetic.zero x == Arithmetic.zero) = true ∨
      ¬Finite (Arithmetic.pow Arithmetic.zero x)

namespace IdentityLaws

variable {Finite : ν → Prop} (laws : IdentityLaws ν Finite)
include laws

theorem beq_apply_of_left (op : Operator) {x y c d : ν} (hx : (x == c) = true) (hy : Finite y)
    (hfin : Finite (op.apply x y)) (hd : (op.apply c y == d) = true) : (d == op.apply x y) = true := by
  have hcongr := laws.apply_congr op hx (laws.beq_self hy) hfin
  exact laws.beq_symm (laws.beq_trans hcongr hd)

theorem beq_apply_of_right (op : Operator) {x y c d : ν} (hx : Finite x) (hy : (y == c) = true)
    (hfin : Finite (op.apply x y)) (hd : (op.apply x c == d) = true) : (d == op.apply x y) = true := by
  have hcongr := laws.apply_congr op (laws.beq_self hx) hy hfin
  exact laws.beq_symm (laws.beq_trans hcongr hd)

/-- A quotient whose dividend is zero is zero, or it is not finite. -/
theorem zero_beq_div {x y : ν} (hx : (x == Arithmetic.zero) = true) (hy : Finite y)
    (hfin : Finite (x / y)) : (Arithmetic.zero == x / y) = true := by
  cases hy0 : y == Arithmetic.zero with
  | false => exact laws.beq_apply_of_left .division hx hy hfin (laws.zero_div hy hy0)
  | true =>
    have hcongr := laws.apply_congr .division hx hy0 hfin
    exact absurd (laws.finite_of_beq hcongr hfin) laws.zero_div_zero

/-- A power whose base is zero is zero, unless it is not finite or its exponent is zero too. -/
theorem zero_beq_pow {x y : ν} (hx : (x == Arithmetic.zero) = true) (hy : Finite y)
    (hy0 : (y == Arithmetic.zero) = false) (hfin : Finite (Arithmetic.pow x y)) :
    (Arithmetic.zero == Arithmetic.pow x y) = true := by
  rcases laws.zero_pow hy hy0 with hzero | hinf
  · exact laws.beq_apply_of_left .power hx hy hfin hzero
  · have hcongr := laws.apply_congr .power hx (laws.beq_self hy) hfin
    exact absurd (laws.finite_of_beq hcongr hfin) hinf

end IdentityLaws

namespace Expr

variable {ops : OperatorSet} {bindings : Bindings ν} {Finite : ν → Prop}

/-! ### Values up to numeric equality -/

/-- The tree is sound and its value equals the number. -/
def Yields (ops : OperatorSet) (bindings : Bindings ν) (e : Expr ν) (v : ν) : Prop :=
  e.validate ops bindings = .ok () ∧ ∃ w, e.compute ops bindings = .ok w ∧ (w == v) = true

theorem yields_number {c v : ν} (h : (c == v) = true) : Yields ops bindings (number c) v :=
  ⟨rfl, c, rfl, h⟩

theorem Yields.isEmpty {e : Expr ν} {v : ν} (h : Yields ops bindings e v) : e.isEmpty = false := by
  obtain ⟨_, w, hw, _⟩ := h
  exact isEmpty_of_compute hw

theorem Yields.congr (laws : IdentityLaws ν Finite) {e : Expr ν} {v v' : ν}
    (h : Yields ops bindings e v) (hv : (v == v') = true) : Yields ops bindings e v' := by
  obtain ⟨hvalid, w, hw, hwv⟩ := h
  exact ⟨hvalid, w, hw, laws.beq_trans hwv hv⟩

/-- A literal yields only numbers that equal it. -/
theorem Yields.beq_of_isLiteral (laws : IdentityLaws ν Finite) {e : Expr ν} {v c : ν}
    (h : Yields ops bindings e v) (hc : e.isLiteral c = true) : (v == c) = true := by
  obtain ⟨x, rfl, hxc⟩ := isLiteral_iff.1 hc
  obtain ⟨_, w, hw, hwv⟩ := h
  have hxw : x = w := by simpa [number, leaf, compute, OperatorSet.meaning] using hw
  rw [← hxw] at hwv
  exact laws.beq_trans (laws.beq_symm hwv) hxc

/-- What an identity puts in place of an operator yields what the operator gives on its operands. -/
theorem yields_identity (laws : IdentityLaws ν Finite) {op : Operator} {l r e : Expr ν} {x y : ν}
    (hl : Yields ops bindings l x) (hr : Yields ops bindings r y) (hx : Finite x) (hy : Finite y)
    (hfin : Finite (op.apply x y))
    (hpow : op = .power → (x == Arithmetic.zero) = true → (y == Arithmetic.zero) = true →
      r.isZero = true)
    (h : op.identity? l r = some e) : Yields ops bindings e (op.apply x y) := by
  have left_eq : ∀ {c : ν}, l.isLiteral c = true → (x == c) = true := hl.beq_of_isLiteral laws
  have right_eq : ∀ {c : ν}, r.isLiteral c = true → (y == c) = true := hr.beq_of_isLiteral laws
  cases op with
  | addition =>
    simp only [Operator.identity?] at h
    split_ifs at h with hr0 hl0 <;> cases h
    · exact hl.congr laws (laws.beq_apply_of_right _ hx (right_eq hr0) hfin (laws.add_zero hx))
    · exact hr.congr laws (laws.beq_apply_of_left _ (left_eq hl0) hy hfin (laws.zero_add hy))
  | subtraction =>
    simp only [Operator.identity?] at h
    split_ifs at h with hr0
    cases h
    exact hl.congr laws (laws.beq_apply_of_right _ hx (right_eq hr0) hfin (laws.sub_zero hx))
  | multiplication =>
    simp only [Operator.identity?, Bool.or_eq_true] at h
    split_ifs at h with hr1 hl1 h0 <;> cases h
    · exact hl.congr laws (laws.beq_apply_of_right _ hx (right_eq hr1) hfin (laws.mul_one hx))
    · exact hr.congr laws (laws.beq_apply_of_left _ (left_eq hl1) hy hfin (laws.one_mul hy))
    · rcases h0 with hr0 | hl0
      · exact yields_number (laws.beq_apply_of_right _ hx (right_eq hr0) hfin (laws.mul_zero hx))
      · exact yields_number (laws.beq_apply_of_left _ (left_eq hl0) hy hfin (laws.zero_mul hy))
  | division =>
    simp only [Operator.identity?] at h
    split_ifs at h with hr1 hl0 <;> cases h
    · exact hl.congr laws (laws.beq_apply_of_right _ hx (right_eq hr1) hfin (laws.div_one hx))
    · exact yields_number (laws.zero_beq_div (left_eq hl0) hy hfin)
  | power =>
    simp only [Operator.identity?] at h
    split_ifs at h with hr0 hr1 hl1 hl0 <;> cases h
    · exact yields_number (laws.beq_apply_of_right _ hx (right_eq hr0) hfin (laws.pow_zero hx))
    · exact hl.congr laws (laws.beq_apply_of_right _ hx (right_eq hr1) hfin (laws.pow_one hx))
    · exact yields_number (laws.beq_apply_of_left _ (left_eq hl1) hy hfin (laws.one_pow hy))
    · -- A literal zero in the exponent has met an earlier identity, and any other is ruled out by `hpow`.
      have hy0 : (y == Arithmetic.zero) = false := by
        cases hzero : y == Arithmetic.zero with
        | false => rfl
        | true => exact absurd (hpow rfl (left_eq hl0) hzero) hr0
      exact yields_number (laws.zero_beq_pow (left_eq hl0) hy hy0 hfin)
  | sine => simp [Operator.identity?] at h
  | cosine => simp [Operator.identity?] at h

/-! ### One sweep -/

/-- A power whose base and exponent are both zero, and whose exponent is no literal. -/
def IsOpenZeroPower (ops : OperatorSet) (bindings : Bindings ν) (e : Expr ν) : Prop :=
  ∃ a l r x y, e = node a l r ∧ ops.operator? a = some .power ∧
    l.evaluate ops bindings = .ok x ∧ (x == Arithmetic.zero) = true ∧
    r.literal? = none ∧ r.evaluate ops bindings = .ok y ∧ (y == Arithmetic.zero) = true

/-- If base and exponent of a power are zero and the exponent is a literal, then so it is after any pass. -/
theorem isZero_exponent_sweepPass {a : Atom ν} {l r : Expr ν} {x y : ν}
    (hop : ops.operator? a = some .power) (hopen : ¬(node a l r).IsOpenZeroPower ops bindings)
    (hx : l.evaluate ops bindings = .ok x) (hy : r.evaluate ops bindings = .ok y)
    (hx0 : (x == Arithmetic.zero) = true) (hy0 : (y == Arithmetic.zero) = true) (p : Pass) :
    (r.sweepPass ops p).tree.isZero = true := by
  cases hlit : r.literal? with
  | none => exact absurd ⟨a, l, r, x, y, rfl, hop, hx, hx0, hlit, hy, hy0⟩ hopen
  | some c =>
    have hr : r = number c := literal?_eq_some_iff.1 hlit
    subst hr
    have hcy : c = y := by
      simpa [number, leaf, compute, OperatorSet.meaning] using (evaluate_eq_ok_iff.1 hy).2
    rw [number, tree_sweepPass_leaf rfl]
    refine isLiteral_iff.2 ⟨c, rfl, ?_⟩
    rw [hcy]
    exact hy0

theorem yields_sweepPass_identities (laws : IdentityLaws ν Finite) {e : Expr ν} {v : ν}
    (hvalid : e.validate ops bindings = .ok ()) (hv : e.compute ops bindings = .ok v)
    (hfin : e.Everywhere fun s => ∀ w, s.compute ops bindings = .ok w → Finite w)
    (hpow : e.Everywhere fun s => ¬s.IsOpenZeroPower ops bindings) :
    Yields ops bindings (e.sweepPass ops .identities).tree v := by
  have hself : e.Everywhere fun s => ∀ w, s.evaluate ops bindings = .ok w → (w == w) = true :=
    hfin.imp fun s hs w hw => laws.beq_self (hs w (evaluate_eq_ok_iff.1 hw).2)
  have hcongr : e.Everywhere (IsCongruent (fun w v => (w == v) = true) ops bindings) := by
    refine hfin.imp ?_
    intro s hs op x y x' y' happlies _ hx hy
    have hxy : Finite (op.apply x y) := hs _ happlies.compute
    exact laws.beq_symm (laws.apply_congr op (laws.beq_symm hx) (laws.beq_symm hy) hxy)
  have hidentity : e.Everywhere (KeepsIdentity (fun w v => (w == v) = true) ops bindings) := by
    refine (hfin.subtrees.and hpow).imp ?_
    intro s hs
    cases s with
    | empty => trivial
    | node a l r =>
      obtain ⟨⟨hroot, hlfin, hrfin⟩, hopen⟩ := hs
      intro op x y e' happlies harity hl hr hid
      have hfinite : Finite (op.apply x y) := hroot _ happlies.compute
      obtain ⟨hop, hx, hy⟩ := happlies
      simp only [harity] at hy
      have hxcompute := (evaluate_eq_ok_iff.1 hx).2
      have hycompute := (evaluate_eq_ok_iff.1 hy).2
      have hxfin : Finite x := hlfin.root (isEmpty_of_compute hxcompute) x hxcompute
      have hyfin : Finite y := hrfin.root (isEmpty_of_compute hycompute) y hycompute
      refine yields_identity laws hl hr hxfin hyfin hfinite ?_ hid
      intro hpower hx0 hy0
      subst hpower
      exact isZero_exponent_sweepPass hop hopen hx hy hx0 hy0 .identities
  exact yieldsUpTo_sweepPass_identities (evaluate_eq_ok_iff.2 ⟨hvalid, hv⟩)
    (laws.beq_self laws.finite_zero) hself hcongr hidentity

end Expr
end ExprCalculus
