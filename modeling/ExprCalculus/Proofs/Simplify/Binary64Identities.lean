import ExprCalculus.Proofs.Number.Identities
import ExprCalculus.Proofs.Simplify.IdentityValue

/-!
# Identity elimination over binary64 numbers

The laws that identity elimination needs hold of binary64 arithmetic. Those of the four operations are
theorems; what is asked of power, sine and cosine is `MathLibrary.Lawful`.
-/

namespace ExprCalculus

open Float.Model UnpackedFloat

/-- What identity elimination needs of a library. -/
structure MathLibrary.Lawful (lib : MathLibrary) : Prop where
  pow_zero : ∀ x : Float, x.isFinite = true → (lib.pow x 0 == 1) = true
  pow_one : ∀ x : Float, x.isFinite = true → (lib.pow x 1 == x) = true
  one_pow : ∀ x : Float, x.isFinite = true → (lib.pow 1 x == 1) = true
  zero_pow : ∀ x : Float, x.isFinite = true → (x == 0) = false →
    (lib.pow 0 x == 0) = true ∨ (lib.pow 0 x).isFinite = false
  pow_congr : ∀ x x' y y' : Float, (x == x') = true → (y == y') = true →
    (lib.pow x y).isFinite = true → (lib.pow x y == lib.pow x' y') = true
  sin_congr : ∀ x x' : Float, (x == x') = true → (lib.sin x).isFinite = true →
    (lib.sin x == lib.sin x') = true
  cos_congr : ∀ x x' : Float, (x == x') = true → (lib.cos x).isFinite = true →
    (lib.cos x == lib.cos x') = true

/-! ### The laws -/

/-- A number that is neither infinite nor undefined. -/
def Binary64.IsFinite {lib : MathLibrary} (x : Binary64 lib) : Prop := Float.isFinite x = true

theorem apply_congr_binary64 {lib : MathLibrary} (hlib : lib.Lawful) (op : Operator)
    {x x' y y' : Binary64 lib} (hx : (x == x') = true) (hy : (y == y') = true)
    (hfin : (op.apply x y).IsFinite) : (op.apply x y == op.apply x' y') = true := by
  cases op with
  | addition => exact beq_pack_of_respects respectsSameNumber_add hx hy hfin
  | subtraction => exact beq_pack_of_respects respectsSameNumber_sub hx hy hfin
  | multiplication => exact beq_pack_of_respects respectsSameNumber_mul hx hy hfin
  | division => exact beq_pack_of_respects respectsSameNumber_div hx hy hfin
  | power => exact hlib.pow_congr x x' y y' hx hy hfin
  | sine => exact hlib.sin_congr x x' hx hfin
  | cosine => exact hlib.cos_congr x x' hx hfin

theorem identityLaws_binary64 {lib : MathLibrary} (hlib : lib.Lawful) :
    IdentityLaws (Binary64 lib) Binary64.IsFinite where
  beq_self h := float_beq_self h
  beq_symm h := float_beq_iff.2 (float_beq_iff.1 h).symm
  beq_trans h h' := float_beq_iff.2 ((float_beq_iff.1 h).trans (float_beq_iff.1 h'))
  finite_of_beq h hx := (float_beq_iff.1 h).isFinite hx
  finite_zero := float_isFinite_zero
  finite_one := float_isFinite_one
  apply_congr op _ _ _ _ hx hy hfin := apply_congr_binary64 hlib op hx hy hfin
  add_zero := float_add_zero
  zero_add := float_zero_add
  sub_zero := float_sub_zero
  mul_one := float_mul_one
  one_mul := float_one_mul
  mul_zero := float_mul_zero
  zero_mul := float_zero_mul
  div_one := float_div_one
  zero_div := float_zero_div
  zero_div_zero h := absurd (float_zero_div_zero.symm.trans h) Bool.false_ne_true
  pow_zero h := hlib.pow_zero _ h
  pow_one h := hlib.pow_one _ h
  one_pow h := hlib.one_pow _ h
  zero_pow h hne := (hlib.zero_pow _ h hne).imp_right fun hinf hfin =>
    absurd (hinf.symm.trans hfin) Bool.false_ne_true

/-! ### The value after elimination -/

namespace Expr

/-- Where every subtree has a finite value, and no open power of zero to zero occurs, elimination succeeds and
the value stays the same number. -/
theorem evaluate_applyIdentities {lib : MathLibrary} (hlib : lib.Lawful) {ops : OperatorSet}
    {bindings : Bindings (Binary64 lib)} {e : Expr (Binary64 lib)} {v : Binary64 lib}
    (hv : e.evaluate ops bindings = .ok v)
    (hfin : e.Everywhere fun s => ∃ w, s.evaluate ops bindings = .ok w ∧ w.IsFinite)
    (hpow : e.Everywhere fun s => ¬s.IsOpenZeroPower ops bindings) :
    ∃ s v', e.applyIdentities ops = .ok s ∧ s.tree.evaluate ops bindings = .ok v' ∧
      (v' == v) = true := by
  obtain ⟨hvalid, hcompute⟩ := evaluate_eq_ok_iff.1 hv
  have hfinite : e.Everywhere fun s => ∀ w, s.compute ops bindings = .ok w → w.IsFinite := by
    refine hfin.imp ?_
    intro s hvalue w' hw'
    obtain ⟨w, hw, hwfin⟩ := hvalue
    have heq : w' = w := Except.ok.inj (hw'.symm.trans (evaluate_eq_ok_iff.1 hw).2)
    rw [heq]
    exact hwfin
  have hrun : e.applyIdentities ops = .ok (e.sweepPass ops .identities) :=
    optimize_eq_ok_iff.2 ⟨isEmpty_of_compute hcompute, validateOperators_of_validate hvalid,
      sweepPasses_singleton .identities e⟩
  obtain ⟨hvalid', v', hv', heq⟩ :=
    yields_sweepPass_identities (identityLaws_binary64 hlib) hvalid hcompute hfinite hpow
  exact ⟨_, v', hrun, evaluate_eq_ok_iff.2 ⟨hvalid', hv'⟩, heq⟩

end Expr

/-! ### A run -/

/-- A library that answers only where an identity tells the answer. -/
def MathLibrary.identitiesOnly : MathLibrary where
  pow x y := if y == 0 then 1 else if x == 1 then 1 else if y == 1 then x else if x == 0 then 0 else 0 / 0
  sin x := if x == 0 then x else 0 / 0
  cos x := if x == 0 then 1 else 0 / 0

theorem float_beq_congr {x x' : Float} (h : (x == x') = true) (c : Float) : (x == c) = (x' == c) := by
  rw [Bool.eq_iff_iff]
  constructor
  · intro hc
    exact float_beq_iff.2 ((float_beq_iff.1 h).symm.trans (float_beq_iff.1 hc))
  · intro hc
    exact float_beq_iff.2 ((float_beq_iff.1 h).trans (float_beq_iff.1 hc))

theorem float_zero_beq_zero : ((0 : Float) == 0) = true := rfl

theorem float_one_beq_one : ((1 : Float) == 1) = true := rfl

theorem lawful_identitiesOnly : MathLibrary.identitiesOnly.Lawful where
  pow_zero x h := by
    simp only [MathLibrary.identitiesOnly, float_zero_beq_zero, if_true, float_one_beq_one]
  pow_one x h := by
    have hone : ((1 : Float) == 0) = false := rfl
    simp only [MathLibrary.identitiesOnly, hone, float_one_beq_one, if_true]
    cases hx : x == 1 with
    | true => exact float_beq_iff.2 (float_beq_iff.1 hx).symm
    | false => exact float_beq_self h
  one_pow x h := by
    simp only [MathLibrary.identitiesOnly, float_one_beq_one, if_true, ite_self]
  zero_pow x h hne := by
    have hone : ((0 : Float) == 1) = false := rfl
    refine .inl ?_
    cases hx : x == 1 <;>
      simp [MathLibrary.identitiesOnly, hne, hone, hx, float_zero_beq_zero]
  pow_congr x x' y y' hx hy hfin := by
    simp only [MathLibrary.identitiesOnly, float_beq_congr hx, float_beq_congr hy] at hfin ⊢
    split_ifs at hfin ⊢ <;> first | exact hx | exact float_beq_self hfin
  sin_congr x x' hx hfin := by
    simp only [MathLibrary.identitiesOnly, float_beq_congr hx] at hfin ⊢
    split_ifs at hfin ⊢
    · exact hx
    · exact float_beq_self hfin
  cos_congr x x' hx hfin := by
    simp only [MathLibrary.identitiesOnly, float_beq_congr hx] at hfin ⊢
    split_ifs at hfin ⊢
    · exact float_beq_self hfin
    · exact float_beq_self hfin

namespace Expr

variable {ν : Type} [Arithmetic ν] {ops : OperatorSet} {bindings : Bindings ν}

theorem not_isOpenZeroPower_of_operator {a : Atom ν} {l r : Expr ν}
    (h : ops.operator? a ≠ some .power) : ¬(node a l r).IsOpenZeroPower ops bindings := by
  intro hopen
  obtain ⟨_, _, _, _, _, heq, hop, _⟩ := hopen
  cases heq
  exact h hop

theorem not_isOpenZeroPower_of_literal {a : Atom ν} {l : Expr ν} {c : ν} :
    ¬(node a l (number c)).IsOpenZeroPower ops bindings := by
  intro hopen
  obtain ⟨_, _, _, _, _, heq, _, _, _, hlit, _⟩ := hopen
  cases heq
  exact Option.some_ne_none c hlit

/-- `x * (x - 5) ^ 0 + sin (0 * y)`. -/
def cascade : Expr (Binary64 .identitiesOnly) :=
  node (.symbol "+")
    (node (.symbol "*") (symbol "x")
      (node (.symbol "^") (node (.symbol "-") (symbol "x") (number (5 : Float))) (number (0 : Float))))
    (node (.symbol "sin") (node (.symbol "*") (number (0 : Float)) (symbol "y")) empty)

def cascadeBindings : Bindings (Binary64 .identitiesOnly) := ⟨[("x", (5 : Float)), ("y", (2 : Float))]⟩

/-- Here one identity makes the literal on which the next one acts, and a literal zero raised to zero is
allowed. -/
theorem evaluate_applyIdentities_cascade :
    MathLibrary.identitiesOnly.Lawful ∧ cascade.evaluate .full cascadeBindings = .ok (5 : Float) ∧
      (cascade.Everywhere fun s => ∃ w, s.evaluate .full cascadeBindings = .ok w ∧ w.IsFinite) ∧
      (cascade.Everywhere fun s => ¬s.IsOpenZeroPower .full cascadeBindings) ∧
      ∃ s v', cascade.applyIdentities .full = .ok s ∧ s.tree.evaluate .full cascadeBindings = .ok v' ∧
        (v' == (5 : Float)) = true := by
  have hv : cascade.evaluate .full cascadeBindings = .ok (5 : Float) := rfl
  have hfin : cascade.Everywhere fun s =>
      ∃ w, s.evaluate .full cascadeBindings = .ok w ∧ w.IsFinite :=
    ⟨⟨_, rfl, rfl⟩,
      ⟨⟨_, rfl, rfl⟩, ⟨⟨_, rfl, rfl⟩, trivial, trivial⟩,
        ⟨_, rfl, rfl⟩, ⟨⟨_, rfl, rfl⟩, ⟨⟨_, rfl, rfl⟩, trivial, trivial⟩, ⟨_, rfl, rfl⟩, trivial, trivial⟩,
        ⟨_, rfl, rfl⟩, trivial, trivial⟩,
      ⟨_, rfl, rfl⟩,
        ⟨⟨_, rfl, rfl⟩, ⟨⟨_, rfl, rfl⟩, trivial, trivial⟩, ⟨_, rfl, rfl⟩, trivial, trivial⟩, trivial⟩
  have hleaf : ∀ {s : Expr (Binary64 .identitiesOnly)}, (¬s.IsOpenZeroPower .full cascadeBindings) →
      (¬s.IsOpenZeroPower .full cascadeBindings) ∧ True ∧ True := fun h => ⟨h, trivial, trivial⟩
  have hpow : cascade.Everywhere fun s => ¬s.IsOpenZeroPower .full cascadeBindings :=
    ⟨not_isOpenZeroPower_of_operator (by decide),
      ⟨not_isOpenZeroPower_of_operator (by decide),
        hleaf (not_isOpenZeroPower_of_operator (by decide)),
        not_isOpenZeroPower_of_literal,
          ⟨not_isOpenZeroPower_of_operator (by decide),
            hleaf (not_isOpenZeroPower_of_operator (by decide)),
            hleaf (not_isOpenZeroPower_of_operator (by decide))⟩,
          hleaf (not_isOpenZeroPower_of_operator (by decide))⟩,
      not_isOpenZeroPower_of_operator (by decide),
        ⟨not_isOpenZeroPower_of_operator (by decide),
          hleaf (not_isOpenZeroPower_of_operator (by decide)),
          hleaf (not_isOpenZeroPower_of_operator (by decide))⟩, trivial⟩
  exact ⟨lawful_identitiesOnly, hv, hfin, hpow, evaluate_applyIdentities lawful_identitiesOnly hv hfin hpow⟩

end Expr

end ExprCalculus
