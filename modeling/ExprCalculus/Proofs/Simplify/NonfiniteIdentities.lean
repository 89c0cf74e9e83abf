import ExprCalculus.Proofs.Number.SameValue
import ExprCalculus.Proofs.Simplify.Binary64Identities

/-!
# Identity elimination among infinities and NaN

Values may be any binary64 numbers here. As long as nothing is divided by zero or raised to the power zero,
identities that keep an operand change no value, the sign of a zero apart. Those that put a zero in place of an
operator do: `x * 0` is NaN for infinite `x`, and so is `0 / x` for a NaN, and `0 ^ x` is not zero unless `x` is
positive. `IgnoresPartner` leaves just these cases out. The sign of a zero counts under a power: `(x + 0) ^ -1` turns
from one infinity into the other where `x` is -0. `KeepsZeroBase` leaves that out.
-/

namespace ExprCalculus

/-- What the C standard says of power at one and at zero, and of sine and cosine at zero. -/
structure MathLibrary.Standard (lib : MathLibrary) : Prop where
  pow_one : ∀ x : Float, SameValue (lib.pow x 1) x
  one_pow : ∀ y : Float, SameValue (lib.pow 1 y) 1
  zero_pow : ∀ x y : Float, (x == 0) = true → 0 < y → SameValue (lib.pow x y) 0
  sin_zero : ∀ x : Float, (x == 0) = true → SameValue (lib.sin x) 0
  cos_zero : ∀ x : Float, (x == 0) = true → SameValue (lib.cos x) 1

namespace Binary64

variable {lib : MathLibrary}

/-- Neither a division by zero nor a power to zero. -/
def AvoidsZero (op : Operator) (_ y : Binary64 lib) : Prop :=
  match op with
  | .division | .power => (y == Arithmetic.zero) = false
  | _ => True

/-- Where an operand, once rewritten, is a literal zero, the value of the other one does not keep the result from being
zero. -/
def IgnoresPartner (op : Operator) (l r : Expr (Binary64 lib)) (x y : Binary64 lib) : Prop :=
  match op with
  | .multiplication => (l.isZero = true → y.IsFinite) ∧ (r.isZero = true → x.IsFinite)
  | .division => l.isZero = true → Float.isNaN y = false
  | .power => l.isZero = true → (0 : Float) < y
  | _ => True

/-- Where a base is zero and the exponent is not positive, the base is the same zero once it has been rewritten. -/
def KeepsZeroBase (ops : OperatorSet) (bindings : Bindings (Binary64 lib)) (op : Operator)
    (l _ : Expr (Binary64 lib)) (x y : Binary64 lib) : Prop :=
  match op with
  | .power => (x == Arithmetic.zero) = true → (0 : Float) < y ∨ l.evaluate ops bindings = .ok x
  | _ => True

end Binary64

variable {lib : MathLibrary}

/-! ### Equal operands -/

theorem sameValue_beq_zero {x y : Float} (h : SameValue x y) : (x == 0) = (y == 0) := by
  rcases sameValue_iff_eq.1 h with rfl | ⟨hx, hy⟩
  · rfl
  · rw [hx, hy]

theorem MathLibrary.Standard.pow_congr (hlib : lib.Standard) {x x' y y' : Float} (hx : SameValue x' x)
    (hy : SameValue y' y) (hne : (y == 0) = false) (hbase : (x == 0) = true → 0 < y ∨ x' = x) :
    SameValue (lib.pow x' y') (lib.pow x y) := by
  rcases sameValue_iff_eq.1 hy with rfl | ⟨_, hzero⟩
  · rcases sameValue_iff_eq.1 hx with rfl | ⟨hx', hx⟩
    · exact sameValue_refl _
    · rcases hbase hx with hpos | rfl
      · exact (hlib.zero_pow x' y' hx' hpos).trans (hlib.zero_pow x y' hx hpos).symm
      · exact sameValue_refl _
  · rw [hne] at hzero
    cases hzero

theorem MathLibrary.Standard.sin_congr (hlib : lib.Standard) {x x' : Float} (hx : SameValue x' x) :
    SameValue (lib.sin x') (lib.sin x) := by
  rcases sameValue_iff_eq.1 hx with rfl | ⟨hx', hx⟩
  · exact sameValue_refl _
  · exact (hlib.sin_zero x' hx').trans (hlib.sin_zero x hx).symm

theorem MathLibrary.Standard.cos_congr (hlib : lib.Standard) {x x' : Float} (hx : SameValue x' x) :
    SameValue (lib.cos x') (lib.cos x) := by
  rcases sameValue_iff_eq.1 hx with rfl | ⟨hx', hx⟩
  · exact sameValue_refl _
  · exact (hlib.cos_zero x' hx').trans (hlib.cos_zero x hx).symm

/-- Numerically equal, or both NaN. -/
def Binary64.Same (x y : Binary64 lib) : Prop := SameValue x y

theorem Binary64.Same.symm {x y : Binary64 lib} (h : x.Same y) : y.Same x := SameValue.symm h

theorem Binary64.Same.trans {x y z : Binary64 lib} (h : x.Same y) (h' : y.Same z) : x.Same z :=
  SameValue.trans h h'

theorem Binary64.same_refl (x : Binary64 lib) : x.Same x := sameValue_refl x

theorem same_apply (hlib : lib.Standard) {op : Operator} {x x' y y' : Binary64 lib}
    (havoids : Binary64.AvoidsZero op x y)
    (hbase : op = .power → (x == Arithmetic.zero) = true → (0 : Float) < y ∨ x' = x) (hx : x'.Same x)
    (hy : y'.Same y) : (op.apply x' y').Same (op.apply x y) := by
  cases op with
  | addition =>
    have hsum := SameValue.add hx hy
    exact hsum
  | subtraction =>
    have hdifference := SameValue.sub hx hy
    exact hdifference
  | multiplication =>
    have hproduct := SameValue.mul hx hy
    exact hproduct
  | division =>
    have hquotient := SameValue.div hx.symm hy.symm havoids
    have hsame := SameValue.symm hquotient
    exact hsame
  | power => exact hlib.pow_congr hx hy havoids (hbase rfl)
  | sine => exact hlib.sin_congr hx
  | cosine => exact hlib.cos_congr hx

/-! ### One identity -/

namespace Expr

variable {ops : OperatorSet} {bindings : Bindings (Binary64 lib)}

theorem same_of_isLiteral {e : Expr (Binary64 lib)} {v c : Binary64 lib}
    (h : YieldsUpTo Binary64.Same ops bindings e v) (hc : e.isLiteral c = true) : c.Same v := by
  obtain ⟨x, hxc, hxv⟩ := h.of_isLiteral hc
  exact (SameValue.symm (sameValue_of_beq hxc)).trans hxv

theorem YieldsUpTo.literal {v c : Binary64 lib} (h : c.Same v) :
    YieldsUpTo Binary64.Same ops bindings (number c) v := yieldsUpTo_number h

theorem YieldsUpTo.to {e : Expr (Binary64 lib)} {v v' : Binary64 lib}
    (h : YieldsUpTo Binary64.Same ops bindings e v) (hv : v.Same v') :
    YieldsUpTo Binary64.Same ops bindings e v' := h.imp fun _ hw => hw.trans hv

/-- What an identity puts in place of an operator has the value that the operator gives on its operands. -/
theorem same_identity (hlib : lib.Standard) {op : Operator} {l r e : Expr (Binary64 lib)}
    {x y : Binary64 lib} (hl : YieldsUpTo Binary64.Same ops bindings l x)
    (hr : YieldsUpTo Binary64.Same ops bindings r y) (havoids : Binary64.AvoidsZero op x y)
    (hignores : Binary64.IgnoresPartner op l r x y) (h : op.identity? l r = some e) :
    YieldsUpTo Binary64.Same ops bindings e (op.apply x y) := by
  have of_right : ∀ {c : Binary64 lib}, r.isLiteral c = true →
      (op.apply x c).Same (op.apply x y) := fun hc =>
    same_apply hlib havoids (fun _ _ => .inr rfl) (Binary64.same_refl x) (same_of_isLiteral hr hc)
  have of_left : ∀ {c : Binary64 lib}, l.isLiteral c = true → (op = .power → (x == (0 : Float)) = false) →
      (op.apply c y).Same (op.apply x y) := fun hc hne =>
    same_apply hlib havoids (fun hop hx => absurd ((hne hop).symm.trans hx) Bool.false_ne_true)
      (same_of_isLiteral hl hc) (Binary64.same_refl y)
  have right_zero : r.isZero = true → (y == (0 : Float)) = true := fun hc =>
    (sameValue_beq_zero (same_of_isLiteral hr hc)).symm.trans float_zero_beq_zero
  have left_zero : l.isZero = true → (x == (0 : Float)) = true := fun hc =>
    (sameValue_beq_zero (same_of_isLiteral hl hc)).symm.trans float_zero_beq_zero
  cases op with
  | addition =>
    simp only [Operator.identity?] at h
    split_ifs at h with hr0 hl0 <;> cases h
    · exact hl.to ((sameValue_add_zero x).symm.trans (of_right hr0))
    · exact hr.to ((sameValue_zero_add y).symm.trans (of_left hl0 fun hop => absurd hop (by decide)))
  | subtraction =>
    simp only [Operator.identity?] at h
    split_ifs at h with hr0
    cases h
    exact hl.to ((sameValue_sub_zero x).symm.trans (of_right hr0))
  | multiplication =>
    simp only [Operator.identity?, Bool.or_eq_true] at h
    split_ifs at h with hr1 hl1 h0 <;> cases h
    · exact hl.to ((sameValue_mul_one x).symm.trans (of_right hr1))
    · exact hr.to ((sameValue_one_mul y).symm.trans (of_left hl1 fun hop => absurd hop (by decide)))
    · rcases h0 with hr0 | hl0
      · have hzero := sameValue_of_beq (float_mul_zero (hignores.2 hr0))
        exact .literal (hzero.symm.trans (of_right hr0))
      · have hzero := sameValue_of_beq (float_zero_mul (hignores.1 hl0))
        exact .literal (hzero.symm.trans (of_left hl0 fun hop => absurd hop (by decide)))
  | division =>
    simp only [Operator.identity?] at h
    split_ifs at h with hr1 hl0 <;> cases h
    · exact hl.to ((sameValue_div_one x).symm.trans (of_right hr1))
    · have hzero := sameValue_zero_div havoids (hignores hl0)
      exact .literal (hzero.symm.trans (of_left hl0 fun hop => absurd hop (by decide)))
  | power =>
    simp only [Operator.identity?] at h
    split_ifs at h with hr0 hr1 hl1 hl0 <;> cases h
    · exact absurd (right_zero hr0) (Bool.not_eq_true _ ▸ havoids)
    · exact hl.to ((hlib.pow_one x).symm.trans (of_right hr1))
    · -- A base that is a literal one is no zero, whose sign could count.
      have hone : ((1 : Float) == 0) = false := rfl
      have hne : (x == (0 : Float)) = false := (sameValue_beq_zero (same_of_isLiteral hl hl1)).symm.trans hone
      exact .literal ((hlib.one_pow y).symm.trans (of_left hl1 fun _ => hne))
    · exact .literal ((hlib.zero_pow x y (left_zero hl0) (hignores hl0)).symm)
  | sine => simp [Operator.identity?] at h
  | cosine => simp [Operator.identity?] at h

/-! ### The whole tree -/

theorem isCongruent_same (hlib : lib.Standard) {e : Expr (Binary64 lib)}
    (havoids : ∀ op x y, e.Applies ops bindings op x y → Binary64.AvoidsZero op x y)
    (hbase : ∀ op x y, e.Applies ops bindings op x y →
      Binary64.KeepsZeroBase ops bindings op (e.childrenSwept ops).left (e.childrenSwept ops).right x y) :
    e.IsCongruent Binary64.Same ops bindings := by
  intro op x y x' y' happlies hswept hx hy
  cases e with
  | empty => exact happlies.elim
  | node a l r =>
    have hx' : (l.sweepPass ops .identities).tree.evaluate ops bindings = .ok x' := hswept.2.1
    refine same_apply hlib (havoids op x y happlies) ?_ hx hy
    intro hpower hx0
    subst hpower
    refine (hbase .power x y happlies hx0).imp_right ?_
    intro hsame
    exact Except.ok.inj (hx'.symm.trans hsame)

/-- Where no divisor and no exponent is zero, no literal zero meets a number that keeps it from being the result, and
no zero changes its sign under a power that is not positive, elimination succeeds and the value stays the same, be it a
number, an infinity or NaN. -/
theorem sameValue_applyIdentities (hlib : lib.Standard) {e : Expr (Binary64 lib)} {v : Binary64 lib}
    (hv : e.evaluate ops bindings = .ok v)
    (havoids : e.OperandsAre Binary64.AvoidsZero ops bindings)
    (hignores : e.OperandsMeet Binary64.IgnoresPartner ops bindings)
    (hbase : e.OperandsMeet (Binary64.KeepsZeroBase ops bindings) ops bindings) :
    ∃ s v', e.applyIdentities ops = .ok s ∧ s.tree.evaluate ops bindings = .ok v' ∧ v'.Same v := by
  obtain ⟨hvalid, hcompute⟩ := evaluate_eq_ok_iff.1 hv
  have hrun : e.applyIdentities ops = .ok (e.sweepPass ops .identities) :=
    optimize_eq_ok_iff.2 ⟨isEmpty_of_compute hcompute, validateOperators_of_validate hvalid,
      sweepPasses_singleton .identities e⟩
  have hcongr : e.Everywhere (IsCongruent Binary64.Same ops bindings) :=
    (havoids.and hbase).imp fun s hs => isCongruent_same hlib hs.1 hs.2
  have hidentity : e.Everywhere (KeepsIdentity Binary64.Same ops bindings) := by
    refine (havoids.and hignores).imp ?_
    intro s hs
    cases s with
    | empty => trivial
    | node a l r =>
      intro op x y e' happlies _ hl hr hid
      exact same_identity hlib hl hr (hs.1 op x y happlies) (hs.2 op x y happlies) hid
  have hself : e.Everywhere fun s => ∀ w, s.evaluate ops bindings = .ok w → w.Same w :=
    everywhere_of_forall (fun _ w _ => Binary64.same_refl w) e
  obtain ⟨hvalid', v', hv', hsame⟩ :=
    yieldsUpTo_sweepPass_identities hv (Binary64.same_refl _) hself hcongr hidentity
  exact ⟨_, v', hrun, evaluate_eq_ok_iff.2 ⟨hvalid', hv'⟩, hsame⟩

/-- `x * 0`. -/
def product : Expr (Binary64 .system) := node (.symbol "*") (symbol "x") (number (0 : Float))

def productBindings : Bindings (Binary64 .system) := ⟨[("x", (1 / 0 : Float))]⟩

/-- Without a zero divisor or exponent, but with an infinite `x`, the product turns from NaN into zero. -/
theorem not_same_applyIdentities_product :
    product.evaluate .full productBindings = .ok (0 / 0 : Float) ∧
      product.OperandsAre Binary64.AvoidsZero .full productBindings ∧
      product.applyIdentities .full = .ok ⟨number (0 : Float), 1⟩ ∧
      (number (0 : Float)).evaluate .full productBindings = .ok (0 : Float) ∧
      ¬SameValue 0 (0 / 0) := by
  refine ⟨rfl, ?_, rfl, rfl, ?_⟩
  · exact operandsAre_binary rfl rfl rfl rfl trivial (operandsAre_leaf rfl) (operandsAre_leaf rfl)
  · rintro (hbeq | ⟨hnan, _⟩)
    · exact absurd hbeq (by decide)
    · exact absurd hnan (by decide)

end Expr

/-! ### A run -/

theorem ne_zero_of_pos {x : Float} (h : 0 < x) : (x == 0) = false := by
  cases hx : x == 0 with
  | false => rfl
  | true =>
    obtain ⟨s, hs⟩ := isZero_iff.1 hx
    cases s with
    | positive =>
      have hzero : x = 0 := float_eq_of_unpack hs
      rw [hzero] at h
      exact absurd h (by decide)
    | negative =>
      have hzero : x = -0 := float_eq_of_unpack hs
      rw [hzero] at h
      exact absurd h (by decide)

theorem standard_identitiesOnly : MathLibrary.identitiesOnly.Standard where
  pow_one x := by
    have hone : ((1 : Float) == 0) = false := rfl
    simp only [MathLibrary.identitiesOnly, hone, float_one_beq_one, if_true]
    cases hx : x == 1 with
    | true => exact (sameValue_of_beq hx).symm
    | false => exact sameValue_refl x
  one_pow y := by
    simp only [MathLibrary.identitiesOnly, float_one_beq_one, if_true, ite_self]
    exact sameValue_refl 1
  zero_pow x y hx hy := by
    have hx1 : (x == 1) = false := float_beq_congr hx 1
    simp only [MathLibrary.identitiesOnly, ne_zero_of_pos hy, hx1, hx, Bool.false_eq_true, if_false,
      if_true]
    split_ifs
    · exact sameValue_of_beq hx
    · exact sameValue_refl 0
  sin_zero x hx := by
    simp only [MathLibrary.identitiesOnly, hx, if_true]
    exact sameValue_of_beq hx
  cos_zero x hx := by
    simp only [MathLibrary.identitiesOnly, hx, if_true]
    exact sameValue_refl 1

namespace Expr

/-- `x * z + 0 ^ w`. -/
def unboundedProduct : Expr (Binary64 .identitiesOnly) :=
  node (.symbol "+") (node (.symbol "*") (symbol "x") (symbol "z"))
    (node (.symbol "^") (number (0 : Float)) (symbol "w"))

def unboundedProductBindings : Bindings (Binary64 .identitiesOnly) :=
  ⟨[("x", (1 / 0 : Float)), ("z", (0 : Float)), ("w", (3 : Float))]⟩

/-- With an infinite `x` and a zero for `z` the value is NaN before and after, for no literal zero meets `x`. -/
theorem sameValue_applyIdentities_unboundedProduct :
    MathLibrary.identitiesOnly.Standard ∧
      unboundedProduct.evaluate .full unboundedProductBindings = .ok (0 / 0 : Float) ∧
      unboundedProduct.OperandsAre Binary64.AvoidsZero .full unboundedProductBindings ∧
      unboundedProduct.OperandsMeet Binary64.IgnoresPartner .full unboundedProductBindings ∧
      unboundedProduct.OperandsMeet (Binary64.KeepsZeroBase .full unboundedProductBindings) .full
        unboundedProductBindings ∧
      ∃ s v', unboundedProduct.applyIdentities .full = .ok s ∧
        s.tree.evaluate .full unboundedProductBindings = .ok v' ∧ v'.Same (0 / 0 : Float) := by
  have hv : unboundedProduct.evaluate .full unboundedProductBindings = .ok (0 / 0 : Float) := rfl
  have havoids : unboundedProduct.OperandsAre Binary64.AvoidsZero .full unboundedProductBindings :=
    operandsAre_binary rfl rfl rfl rfl trivial
      (operandsAre_binary rfl rfl rfl rfl trivial (operandsAre_leaf rfl) (operandsAre_leaf rfl))
      (operandsAre_binary rfl rfl rfl rfl rfl (operandsAre_leaf rfl) (operandsAre_leaf rfl))
  have hignores : unboundedProduct.OperandsMeet Binary64.IgnoresPartner .full unboundedProductBindings :=
    operandsMeet_binary rfl rfl rfl rfl trivial
      (operandsMeet_binary rfl rfl rfl rfl ⟨fun h => absurd h (by decide), fun h => absurd h (by decide)⟩
        (operandsMeet_leaf rfl) (operandsMeet_leaf rfl))
      (operandsMeet_binary rfl rfl rfl rfl (fun _ => by decide) (operandsMeet_leaf rfl) (operandsMeet_leaf rfl))
  have hbase : unboundedProduct.OperandsMeet (Binary64.KeepsZeroBase .full unboundedProductBindings) .full
      unboundedProductBindings :=
    operandsMeet_binary rfl rfl rfl rfl trivial
      (operandsMeet_binary rfl rfl rfl rfl trivial (operandsMeet_leaf rfl) (operandsMeet_leaf rfl))
      (operandsMeet_binary rfl rfl rfl rfl (fun _ => .inl (by decide)) (operandsMeet_leaf rfl)
        (operandsMeet_leaf rfl))
  exact ⟨standard_identitiesOnly, hv, havoids, hignores, hbase,
    sameValue_applyIdentities standard_identitiesOnly hv havoids hignores hbase⟩

end Expr

end ExprCalculus
