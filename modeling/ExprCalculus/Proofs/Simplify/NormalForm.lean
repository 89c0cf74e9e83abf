import ExprCalculus.Proofs.Simplify.SweptValue

/-!
# Trees with nothing left to rewrite

`Pass.Applies` says by the shape of the operands where a pass has something to do, and a tree is in the normal form of
a pass if there is no such place in it. These are just the trees on which the pass takes no step.
-/

namespace ExprCalculus

variable {ν : Type}

namespace Expr

def IsNumber (e : Expr ν) : Prop := ∃ v, e = number v

theorem isNumber_iff {e : Expr ν} : e.IsNumber ↔ e.literal?.isSome = true := by
  simp only [IsNumber, Option.isSome_iff_exists, literal?_eq_some_iff]

/-- The tree is a number that equals the given one. -/
def IsEqualTo [BEq ν] (e : Expr ν) (v : ν) : Prop := ∃ x, e = number x ∧ (x == v) = true

end Expr

variable [Arithmetic ν]

namespace Operator

/-- All operands that the operator has are numbers. -/
def IsOnNumbers (op : Operator) (l r : Expr ν) : Prop := l.IsNumber ∧ (op.arity = .binary → r.IsNumber)

/-- One of the identities fits: 0 and 1 stand where it wants them. -/
def HasIdentity (op : Operator) (l r : Expr ν) : Prop :=
  let zero : ν := Arithmetic.zero
  let one : ν := Arithmetic.one
  match op with
  | addition => r.IsEqualTo zero ∨ l.IsEqualTo zero
  | subtraction => r.IsEqualTo zero
  | multiplication => r.IsEqualTo one ∨ l.IsEqualTo one ∨ r.IsEqualTo zero ∨ l.IsEqualTo zero
  | division => r.IsEqualTo one ∨ l.IsEqualTo zero
  | power => r.IsEqualTo zero ∨ r.IsEqualTo one ∨ l.IsEqualTo one ∨ l.IsEqualTo zero
  | sine | cosine => False

theorem constant?_eq_none_iff {op : Operator} {l r : Expr ν} : op.constant? l r = none ↔ ¬op.IsOnNumbers l r := by
  rw [constant?_eq, Option.map_eq_none_iff, IsOnNumbers, Expr.isNumber_iff, Expr.isNumber_iff]
  cases harity : op.arity with
  | unary => cases l.literal? <;> simp [value?, harity]
  | binary => cases l.literal? <;> cases r.literal? <;> simp [value?, harity]

theorem identity?_eq_none_iff {op : Operator} {l r : Expr ν} : op.identity? l r = none ↔ ¬op.HasIdentity l r := by
  have hlit : ∀ (e : Expr ν) (v : ν), e.IsEqualTo v ↔ e.isLiteral v = true := fun e v => Expr.isLiteral_iff.symm
  cases op <;> simp only [identity?, HasIdentity, Expr.isZero, Expr.isOne, hlit] <;> grind

end Operator

namespace Pass

/-- The pass has something to do at an operator with these operands. -/
def Applies (p : Pass) (op : Operator) (l r : Expr ν) : Prop :=
  match p with
  | fold => op.IsOnNumbers l r
  | identities => op.HasIdentity l r

theorem replace?_eq_none_iff {p : Pass} {op : Operator} {l r : Expr ν} :
    p.replace? op l r = none ↔ ¬p.Applies op l r := by
  cases p with
  | fold => exact Operator.constant?_eq_none_iff
  | identities => exact Operator.identity?_eq_none_iff

end Pass

namespace Expr

variable {ops : OperatorSet} {p : Pass}

/-- The pass has nothing to do at the root. -/
def IsNormal (ops : OperatorSet) (p : Pass) : Expr ν → Prop
  | empty => True
  | node a l r => ∀ op, ops.operator? a = some op → ¬p.Applies op l r

theorem isNormal_iff {a : Atom ν} {l r : Expr ν} (h : (node a l r).HasOperands ops) :
    (node a l r).IsNormal ops p ↔ ops.ruleOf p.replace? a l r = none := by
  cases hop : ops.operator? a with
  | none => simp [IsNormal, OperatorSet.ruleOf, hop]
  | some op =>
    have hfits : op.fits l r = true := h op hop
    simp [IsNormal, OperatorSet.ruleOf, hop, hfits, Pass.replace?_eq_none_iff]

/-- The trees on which a pass takes no step are those in its normal form. -/
theorem steps_sweepPass_eq_zero_iff {e : Expr ν} (h : e.Everywhere (HasOperands ops)) :
    (e.sweepPass ops p).steps = 0 ↔ e.Everywhere (IsNormal ops p) := by
  induction e with
  | empty => simp [sweepPass, sweep, Simplified.unchanged, Everywhere]
  | node a l r ihl ihr =>
    obtain ⟨hroot, hl, hr⟩ := h
    have hsame : ∀ {s : Expr ν}, (s.sweepPass ops p).steps = 0 → (s.sweepPass ops p).tree = s := by
      intro s hs
      exact congrArg Simplified.tree (sweep_eq_unchanged hs)
    rw [Everywhere, ← ihl hl, ← ihr hr, isNormal_iff hroot, sweepPass_node]
    constructor
    · intro hsteps
      split at hsteps
      · simp at hsteps
      · rename_i hnone
        simp only [Nat.add_eq_zero_iff] at hsteps
        rw [hsame hsteps.1, hsame hsteps.2] at hnone
        exact ⟨hnone, hsteps⟩
    · rintro ⟨hnone, hlsteps, hrsteps⟩
      rw [hsame hlsteps, hsame hrsteps, hnone]
      simp [hlsteps, hrsteps]

end Expr
end ExprCalculus
